import Residency.Settings
import Residency.Proofs.Words
import Residency.Proofs.Success

/-!
# What an environment means

Settings are read from three variables, and which values have a meaning can be said without the
readers (`Residency.Environment.Meaningful`): a number of jobs is a numeral
(`Residency.IsNumeral`), a switch is one of two digits, and a log is described by a level, perhaps
behind a path (`Residency.Describes`).

The settings are made just if every variable that is set has a meaning, and then they are what the
variables mean (`Residency.Settings.read_eq_ok_iff`). All variables are read before any file is
touched, so an environment without meaning leaves every file as it is
(`Residency.Settings.eq_of_read_eq_error`).
-/

namespace Residency

open Step

variable {d d' : Directory} {cs : List Char} {n bound : Nat} {l : Level}

/-! ### Numerals -/

/-- Some characters are a numeral for a number of a range: digits, perhaps behind a plus. -/
def IsNumeral (bound : Nat) (cs : List Char) (n : Nat) : Prop :=
  ∃ ds ∈ Text.digits, (cs = ds ∨ cs = '+' :: ds) ∧ n = Nat.ofDigitChars 10 ds 0 ∧ n ≤ bound

theorem isDigit_of_digit? {c : Char} {n : Nat} (h : digit? c = some n) : Text.isDigit c = true := by
  unfold digit? at h
  split at h
  · rename_i hc
    simpa [Text.isDigit] using hc
  · cases h

/-- What is read as digits is digits. -/
theorem isDigit_of_readDigits {beyond : NumeralError} {m : Nat}
    (h : readDigits bound beyond n cs = .ok m) : ∀ c ∈ cs, Text.isDigit c = true := by
  induction cs generalizing n with
  | nil => exact fun c hc => absurd hc List.not_mem_nil
  | cons c cs ih =>
    rw [readDigits] at h
    split at h
    · cases h
    · rename_i k hk
      split at h
      · exact List.forall_mem_cons.2 ⟨isDigit_of_digit? hk, ih h⟩
      · cases h

theorem not_mem_digits_of_not_isDigit {c : Char} (hc : Text.isDigit c = false) :
    ∀ w ∈ Text.digits, c ∉ w := by
  intro w hw hmem
  obtain ⟨d, s, rfl, hd, hs⟩ := Text.mem_digits.1 hw
  have hall : ∀ x ∈ d :: s, Text.isDigit x = true := List.forall_mem_cons.2 ⟨hd, hs⟩
  exact Bool.false_ne_true (hc.symm.trans (hall c hmem))

/-- **A number is read** where there is a numeral for it. -/
theorem readNat_eq_ok_iff_isNumeral : readNat bound cs = .ok n ↔ IsNumeral bound cs n := by
  -- Behind a plus, digits are read as they are without one.
  have hread {ds : List Char} (hds : ds ≠ []) : readDigits bound .tooLarge 0 ds = .ok n ↔
      ds ∈ Text.digits ∧ n = Nat.ofDigitChars 10 ds 0 ∧ n ≤ bound := by
    constructor
    · intro h
      have hall := isDigit_of_readDigits h
      refine ⟨?_, (readDigits_eq_ok_iff (Nat.zero_le _) hall).1 h⟩
      obtain ⟨c, s, rfl⟩ := List.exists_cons_of_ne_nil hds
      exact Text.mem_digits.2 ⟨c, s, rfl, List.forall_mem_cons.1 hall⟩
    · rintro ⟨hmem, hn⟩
      obtain ⟨c, s, rfl, hc, hs⟩ := Text.mem_digits.1 hmem
      exact (readDigits_eq_ok_iff (Nat.zero_le _) (List.forall_mem_cons.2 ⟨hc, hs⟩)).2 hn
  have hplus : ∀ ds ∈ Text.digits, '+' ∉ ds := not_mem_digits_of_not_isDigit (by decide)
  have hnil : [] ∉ Text.digits := fun h => by
    obtain ⟨c, s, hcs, -⟩ := Text.mem_digits.1 h
    cases hcs
  unfold readNat
  split
  · refine iff_of_false nofun ?_
    rintro ⟨ds, hds, rfl | hcs, -⟩
    · exact hnil hds
    · cases hcs
  · refine iff_of_false nofun ?_
    rintro ⟨ds, hds, rfl | hcs, -⟩
    · exact hplus _ hds List.mem_cons_self
    · obtain rfl : ds = [] := (List.cons.inj hcs).2.symm
      exact hnil hds
  · rename_i ds hds
    rw [hread fun h => hds (h ▸ rfl)]
    constructor
    · exact fun h => ⟨ds, h.1, Or.inr rfl, h.2⟩
    · rintro ⟨ds', hds', rfl | hcs, hn⟩
      · exact absurd List.mem_cons_self (hplus _ hds')
      · obtain rfl : ds = ds' := (List.cons.inj hcs).2
        exact ⟨hds', hn⟩
  · rename_i hnone hlone hsigned
    rw [hread fun h => hnone h]
    constructor
    · exact fun h => ⟨cs, h.1, Or.inl rfl, h.2⟩
    · rintro ⟨ds, hds, rfl | rfl, hn⟩
      · exact ⟨hds, hn⟩
      · exact absurd rfl (hsigned ds)

theorem IsNumeral.colon_not_mem (h : IsNumeral bound cs n) : ':' ∉ cs := by
  obtain ⟨ds, hds, hcs, -⟩ := h
  have hcolon : ':' ∉ ds := not_mem_digits_of_not_isDigit (by decide) ds hds
  rcases hcs with rfl | rfl
  · exact hcolon
  · exact fun hmem => (List.mem_cons.1 hmem).elim (by decide) hcolon

/-! ### What is described -/

/-- Some characters describe a log of a level and an outlet. The first colon ends the path, so that
a path holds none; a level holds none either. -/
inductive Describes : List Char → Level → Outlet → Prop
  /-- A level alone. -/
  | level {cs : List Char} {l : Level} : IsNumeral 255 cs l.num → Describes cs l .stderr
  /-- A level behind the path that stands for standard error. -/
  | stderr {cs : List Char} {l : Level} :
    IsNumeral 255 cs l.num → Describes (['-'] ++ ':' :: cs) l .stderr
  /-- A level behind another path. -/
  | file {path cs : List Char} {l : Level} : ':' ∉ path → path ≠ ['-'] → IsNumeral 255 cs l.num →
    Describes (path ++ ':' :: cs) l (.file (String.ofList path))

theorem readLevel_eq_ok_iff : Log.readLevel cs = .ok l ↔ IsNumeral 255 cs l.num := by
  rw [← readNat_eq_ok_iff_isNumeral, Log.readLevel]
  split
  · rename_i e he
    rw [he]
    exact ⟨nofun, nofun⟩
  · rename_i n hn
    rw [hn, Except.ok.injEq, @eq_comm _ n, ← Level.ofNum?_eq_some_iff]
    split
    · rename_i l' hl'
      rw [hl', Option.some.injEq, Except.ok.injEq]
    · rename_i hnone
      rw [hnone]
      exact ⟨nofun, nofun⟩

/-- The outlet of a path, where no path is needed for standard error. -/
def Outlet.ofPath? : Option (List Char) → Outlet
  | none => .stderr
  | some path => .file (String.ofList path)

theorem readDescription_of_not_mem (h : ':' ∉ cs) {p : Option (List Char)} :
    Log.readDescription cs = .ok (l, p) ↔ IsNumeral 255 cs l.num ∧ p = none := by
  have hdrop : cs.dropWhile (· != ':') = [] :=
    List.dropWhile_eq_nil_iff.2 fun c hc => bne_iff_ne.2 fun hcolon => h (hcolon ▸ hc)
  rw [Log.readDescription, hdrop]
  dsimp only
  rw [map_eq_ok_iff]
  constructor
  · rintro ⟨l', hl', heq⟩
    cases heq
    exact ⟨readLevel_eq_ok_iff.1 hl', rfl⟩
  · rintro ⟨hl, rfl⟩
    exact ⟨l, readLevel_eq_ok_iff.2 hl, rfl⟩

theorem readDescription_of_colon {path : List Char} (h : ':' ∉ path) {p : Option (List Char)} :
    Log.readDescription (path ++ ':' :: cs) = .ok (l, p) ↔
      IsNumeral 255 cs l.num ∧ p = if path = ['-'] then none else some path := by
  have hpath : ∀ c ∈ path, (c != ':') = true :=
    fun c hc => bne_iff_ne.2 fun hcolon => h (hcolon ▸ hc)
  have hdrop : (path ++ ':' :: cs).dropWhile (· != ':') = ':' :: cs := by
    rw [List.dropWhile_append_of_pos hpath]
    rfl
  have htake : (path ++ ':' :: cs).takeWhile (· != ':') = path := by
    rw [List.takeWhile_append_of_pos hpath]
    exact List.append_nil path
  rw [Log.readDescription, hdrop, htake]
  dsimp only
  split
  · rename_i hcolon
    refine iff_of_false nofun ?_
    rintro ⟨hl, -⟩
    exact hl.colon_not_mem (List.contains_iff_mem.1 hcolon)
  · rw [map_eq_ok_iff]
    constructor
    · rintro ⟨l', hl', heq⟩
      cases heq
      exact ⟨readLevel_eq_ok_iff.1 hl', rfl⟩
    · rintro ⟨hl, rfl⟩
      exact ⟨l, readLevel_eq_ok_iff.2 hl, rfl⟩

/-- **A description is read** as what it describes. -/
theorem describes_iff {o : Outlet} :
    Describes cs l o ↔ ∃ p, Log.readDescription cs = .ok (l, p) ∧ o = Outlet.ofPath? p := by
  constructor
  · rintro (hl | hl | ⟨hpath, hne, hl⟩)
    · exact ⟨none, (readDescription_of_not_mem hl.colon_not_mem).2 ⟨hl, rfl⟩, rfl⟩
    · exact ⟨none, (readDescription_of_colon (by decide)).2 ⟨hl, rfl⟩, rfl⟩
    · exact ⟨some _, (readDescription_of_colon hpath).2 ⟨hl, (if_neg hne).symm⟩, rfl⟩
  · rintro ⟨p, hread, rfl⟩
    by_cases hcolon : ':' ∈ cs
    · obtain ⟨path, level, rfl, hpath⟩ := List.eq_append_cons_of_mem hcolon
      obtain ⟨hl, rfl⟩ := (readDescription_of_colon hpath).1 hread
      split
      · rename_i hdash
        rw [hdash]
        exact .stderr hl
      · rename_i hdash
        exact .file hpath hdash hl
    · obtain ⟨hl, rfl⟩ := (readDescription_of_not_mem hcolon).1 hread
      exact .level hl

/-! ### Settings -/

/-- A value is the one that a variable means, or a default where the variable is not set. -/
def MeantBy {α : Type} (means : String → α → Prop) (default x : α) : Option String → Prop
  | none => x = default
  | some text => means text x

/-- A text means a number of workers. -/
def MeansJobs (text : String) (n : Nat) : Prop :=
  0 < n ∧ IsNumeral (2 ^ 64 - 1) text.toList n

/-- A text means that lowered code is checked, or that it is not. -/
def MeansVerify (text : String) (verify : Bool) : Prop :=
  text = if verify then "1" else "0"

/-- A text means a log. -/
def MeansLog (text : String) (log : Log) : Prop :=
  Describes text.toList log.level log.outlet

/-- Every variable that is set has a meaning. -/
structure Environment.Meaningful (env : Environment) : Prop where
  /-- A number of workers is one. -/
  jobs : ∀ text, env.jobs = some text → ∃ n, MeansJobs text n
  /-- A switch is one. -/
  verify : ∀ text, env.verify = some text → text = "0" ∨ text = "1"
  /-- A log is described. -/
  log : ∀ text, env.log = some text → ∃ l o, Describes text.toList l o

/-- Settings are what an environment means, in a debug build or another one, on a machine of so many
processors. -/
structure Environment.Means (debug : Bool) (processors : Nat) (env : Environment)
    (c : Settings) : Prop where
  /-- The workers, as many as there are processors where nothing is said. -/
  jobs : MeantBy MeansJobs processors c.jobs env.jobs
  /-- The check, which is on in a debug build where nothing is said. -/
  verify : MeantBy MeansVerify debug c.verify env.verify
  /-- The log, of errors to standard error where nothing is said. -/
  log : MeantBy MeansLog { level := .error } c.log env.log

/-- The directory once a log has its outlet: its file is there and empty. -/
def Outlet.made (d : Directory) : Outlet → Directory
  | .stderr => d
  | .file path => d.create path

/-- The file that messages go to, if they go to one: the one that the path leads to. -/
def Outlet.file? (d : Directory) : Outlet → Option String
  | .stderr => none
  | .file path => d.resolve path

variable {debug : Bool} {processors : Nat} {env : Environment} {c : Settings}

theorem exists_meantBy_iff {α : Type} {means : String → α → Prop} {var : Option String}
    (default : α) :
    (∃ x, MeantBy means default x var) ↔ ∀ text, var = some text → ∃ x, means text x := by
  cases var with
  | none => exact iff_of_true ⟨default, rfl⟩ nofun
  | some text =>
    constructor
    · rintro h _ ⟨⟩
      exact h
    · exact fun h => h text rfl

/-- **An environment whose variables have a meaning has one itself.** -/
theorem Environment.meaningful_iff (debug : Bool) (processors : Nat) :
    env.Meaningful ↔ ∃ c, env.Means debug processors c := by
  have hverify (text : String) : (∃ b, MeansVerify text b) ↔ text = "0" ∨ text = "1" :=
    Bool.exists_bool
  have hlog (text : String) : (∃ log, MeansLog text log) ↔ ∃ l o, Describes text.toList l o :=
    ⟨fun ⟨log, h⟩ => ⟨log.level, log.outlet, h⟩, fun ⟨l, o, h⟩ => ⟨⟨l, o⟩, h⟩⟩
  constructor
  · intro h
    obtain ⟨jobs, hj⟩ := (exists_meantBy_iff processors).2 h.jobs
    obtain ⟨verify, hv⟩ := (exists_meantBy_iff debug).2
      fun text ht => (hverify text).2 (h.verify text ht)
    obtain ⟨log, hl⟩ := (exists_meantBy_iff (⟨.error, .stderr⟩ : Log)).2
      fun text ht => (hlog text).2 (h.log text ht)
    exact ⟨⟨log, jobs, verify⟩, hj, hv, hl⟩
  · rintro ⟨c, h⟩
    exact ⟨(exists_meantBy_iff _).1 ⟨_, h.jobs⟩,
      fun text ht => (hverify text).1 ((exists_meantBy_iff _).1 ⟨_, h.verify⟩ text ht),
      fun text ht => (hlog text).1 ((exists_meantBy_iff _).1 ⟨_, h.log⟩ text ht)⟩

theorem readJobs_eq_ok_iff {text : String} :
    Settings.readJobs text = .ok n ↔ MeansJobs text n := by
  have hbound : 2 ^ 64 - 1 = UInt64.size - 1 := rfl
  rw [MeansJobs, hbound, ← readNat_eq_ok_iff_isNumeral, Settings.readJobs]
  split
  · rename_i m hm
    rw [hm, Except.ok.injEq, Except.ok.injEq]
    exact ⟨fun h => ⟨h ▸ Nat.succ_pos m, h⟩, And.right⟩
  · rename_i hnone
    refine ⟨nofun, ?_⟩
    rintro ⟨hpos, hn⟩
    rw [← Nat.succ_pred_eq_of_pos hpos] at hn
    exact absurd hn (hnone _)

theorem readVerify_eq_ok_iff {text : String} {verify : Bool} :
    Settings.readVerify text = .ok verify ↔ MeansVerify text verify := by
  unfold Settings.readVerify MeansVerify
  split
  · rename_i h
    rw [h]
    cases verify <;> decide
  · rename_i h
    split
    · rename_i h'
      rw [h']
      cases verify <;> decide
    · rename_i h'
      cases verify <;> simp [h, h']

/-- **A log is made** as it is described, and only its file changes. -/
theorem ofText_eq_ok_iff {text : String} {log : Log} :
    Log.ofText text d = .ok log d' ↔ MeansLog text log ∧ d' = log.outlet.made d := by
  obtain ⟨level, outlet⟩ := log
  rw [MeansLog, describes_iff]
  rcases he : Log.readDescription text.toList with e | ⟨l, _ | path⟩
  · rw [Log.ofText, he]
    refine iff_of_false (fun h => ?_) ?_
    · cases h
    · rintro ⟨⟨p, hp, -⟩, -⟩
      cases hp
  · rw [Log.ofText, he]
    refine pure_eq_ok_iff.trans ?_
    constructor
    · rintro ⟨h, rfl⟩
      cases h
      exact ⟨⟨none, rfl, rfl⟩, rfl⟩
    · rintro ⟨⟨p, hp, ho⟩, hd⟩
      cases hp
      cases ho
      exact ⟨rfl, hd.symm⟩
  · rw [Log.ofText, he]
    constructor
    · intro h
      cases h
      exact ⟨⟨some path, rfl, rfl⟩, rfl⟩
    · rintro ⟨⟨p, hp, ho⟩, hd⟩
      cases hp
      cases ho
      rw [hd]
      rfl

/-- A description without meaning leaves every file as it is. -/
theorem eq_of_ofText_eq_error {text : String} {e : SettingError}
    (h : Log.ofText text d = .error e d') : d' = d := by
  rcases he : Log.readDescription text.toList with e | ⟨l, _ | path⟩
  all_goals
    rw [Log.ofText, he] at h
    cases h
  rfl

theorem settle_eq_ok_iff {α : Type} {x : α} {r : Except SettingError α} :
    Settings.settle r d = .ok x d' ↔ r = .ok x ∧ d' = d := by
  cases r with
  | ok y =>
    rw [Except.ok.injEq, @eq_comm _ d']
    exact pure_eq_ok_iff
  | error e =>
    refine iff_of_false (fun h => ?_) nofun
    cases h

/-- A value that must be well set leaves every file as it is. -/
theorem eq_of_settle_eq_error {α : Type} {e : SettingError} {r : Except SettingError α}
    (h : Settings.settle r d = .error e d') : d' = d := by
  cases r with
  | ok y => cases h
  | error e =>
    cases h
    rfl

/-- What a variable is read as, or a default where it is not set. -/
def orDefault {α : Type} (read : String → Except SettingError α) (default : α) :
    Option String → Files SettingError α
  | some text => Settings.settle (read text)
  | none => pure default

theorem orDefault_eq_ok_iff {α : Type} {means : String → α → Prop}
    {read : String → Except SettingError α} {var : Option String} {default x : α}
    (hread : ∀ text x, read text = .ok x ↔ means text x) :
    orDefault read default var d = .ok x d' ↔ MeantBy means default x var ∧ d' = d := by
  cases var with
  | none =>
    refine pure_eq_ok_iff.trans ?_
    rw [MeantBy, @eq_comm _ x, @eq_comm _ d']
  | some text => exact settle_eq_ok_iff.trans (and_congr_left' (hread text x))

theorem eq_of_orDefault_eq_error {α : Type} {read : String → Except SettingError α}
    {var : Option String} {default : α} {e : SettingError}
    (h : orDefault read default var d = .error e d') : d' = d := by
  cases var with
  | none => cases h
  | some text => exact eq_of_settle_eq_error h

theorem ofText?_eq_ok_iff {var : Option String} {log : Log} :
    Log.ofText? var d = .ok log d' ↔
      MeantBy MeansLog { level := .error } log var ∧ d' = log.outlet.made d := by
  cases var with
  | none =>
    refine pure_eq_ok_iff.trans ?_
    constructor
    · rintro ⟨rfl, rfl⟩
      exact ⟨rfl, rfl⟩
    · rintro ⟨rfl, rfl⟩
      exact ⟨rfl, rfl⟩
  | some text => exact ofText_eq_ok_iff

/-- The variables are read one after the other, and the log comes last. -/
theorem Settings.read_eq : Settings.read debug processors env = (do
    let jobs ← orDefault Settings.readJobs processors env.jobs
    let verify ← orDefault Settings.readVerify debug env.verify
    let log ← Log.ofText? env.log
    return ⟨log, jobs, verify⟩) := by
  obtain ⟨log, jobs, verify⟩ := env
  cases jobs <;> cases verify <;> rfl

/-- **Settings are made** where an environment means them, and the directory is then as the log
asks for. -/
theorem Settings.read_eq_ok_iff :
    Settings.read debug processors env d = .ok c d' ↔
      env.Means debug processors c ∧ d' = c.log.outlet.made d := by
  simp only [Settings.read_eq, bind_eq_ok_iff, pure_eq_ok_iff, ofText?_eq_ok_iff,
    orDefault_eq_ok_iff fun _ _ => readJobs_eq_ok_iff,
    orDefault_eq_ok_iff fun _ _ => readVerify_eq_ok_iff]
  constructor
  · rintro ⟨jobs, _, ⟨hj, rfl⟩, verify, _, ⟨hv, rfl⟩, log, _, ⟨hl, rfl⟩, rfl, rfl⟩
    exact ⟨⟨hj, hv, hl⟩, rfl⟩
  · rintro ⟨⟨hj, hv, hl⟩, rfl⟩
    exact ⟨c.jobs, d, ⟨hj, rfl⟩, c.verify, d, ⟨hv, rfl⟩, c.log, _, ⟨hl, rfl⟩, rfl, rfl⟩

/-- **An environment without meaning leaves every file as it is**: only the log changes one, and
nothing that can fail comes after. -/
theorem Settings.eq_of_read_eq_error {e : SettingError}
    (h : Settings.read debug processors env d = .error e d') : d' = d := by
  rw [Settings.read_eq] at h
  obtain hj | ⟨jobs, dj, hj, hrest⟩ := bind_eq_error_iff.1 h
  · exact eq_of_orDefault_eq_error hj
  obtain ⟨-, rfl⟩ := (orDefault_eq_ok_iff fun _ _ => readJobs_eq_ok_iff).1 hj
  obtain hv | ⟨verify, dv, hv, hlast⟩ := bind_eq_error_iff.1 hrest
  · exact eq_of_orDefault_eq_error hv
  obtain ⟨-, rfl⟩ := (orDefault_eq_ok_iff fun _ _ => readVerify_eq_ok_iff).1 hv
  obtain hl | ⟨log, dl, -, hnone⟩ := bind_eq_error_iff.1 hlast
  · cases hlog : env.log with
    | none =>
      rw [hlog] at hl
      cases hl
    | some text =>
      rw [hlog] at hl
      exact eq_of_ofText_eq_error hl
  · cases hnone

end Residency
