import Residency.Proofs.Environment

/-!
# The file of a log

Where an environment names a file, the file is empty once the settings are made. What it holds later
depends on the messages and on what others do to it meanwhile (`Residency.Deed`): it may be deleted
or overwritten, and then it starts anew, and only the lines of the messages since then follow
(`Residency.Leaves`). A log never makes a file that has been deleted.
-/

namespace Residency

open Step

variable {d d' : Directory} {l : Level}

/-! ### What happens to a file -/

/-- What is done to the files of a directory while a log writes to one of them: a message is logged,
or something else deletes or overwrites a file. -/
inductive Deed
  /-- A message is logged. -/
  | message (l : Level) (text : String)
  /-- A file is deleted. -/
  | delete (name : String)
  /-- A file gets other contents, and is there afterwards. -/
  | overwrite (name text : String)
  deriving DecidableEq, Repr

/-- The directory that a change leaves, whether it succeeds or not. -/
def directoryAfter {ε α : Type} : EStateM.Result ε Directory α → Directory
  | .ok _ d => d
  | .error _ d => d

/-- The directory after a deed. -/
def Deed.act (log : Log) (d : Directory) : Deed → Directory
  | .message l text => directoryAfter (log.message l text d)
  | .delete name => d.remove name
  | .overwrite name text => d.write name text

/-- A deed deletes or overwrites a file. -/
def Deed.Replaces (name : String) (x : Deed) : Prop :=
  x = .delete name ∨ ∃ text, x = .overwrite name text

/-- What a deed adds to a log of a level: a line, if it is a message that the level admits. -/
def Deed.line (level : Level) : Deed → String
  | .message l text => if level.admits l then l.line text ++ "\n" else ""
  | .delete _ => ""
  | .overwrite _ _ => ""

/-- The lines of a log of a level, in order. -/
def logLines (level : Level) (deeds : List Deed) : String :=
  String.join (deeds.map (Deed.line level))

/-- What deeds leave of a file that was empty before: the lines since it was overwritten last,
behind what it was overwritten with, and nothing at all if it was deleted since. -/
inductive Leaves (level : Level) (name : String) : List Deed → Option String → Prop
  /-- Nothing but the log touches the file. -/
  | kept {deeds : List Deed} : (∀ x ∈ deeds, ¬ x.Replaces name) →
    Leaves level name deeds (some (logLines level deeds))
  /-- It is overwritten, and only the log touches it afterwards. -/
  | overwritten {before after : List Deed} {text : String} : (∀ x ∈ after, ¬ x.Replaces name) →
    Leaves level name (before ++ .overwrite name text :: after)
      (some (text ++ logLines level after))
  /-- It is deleted, and nothing makes it anew. -/
  | deleted {before after : List Deed} : (∀ x ∈ after, ¬ x.Replaces name) →
    Leaves level name (before ++ .delete name :: after) none

section File

variable {log : Log} {o : Outlet} {name : String} {x : Deed} {deeds : List Deed}

/-! ### Where the messages go -/

theorem Outlet.file?_congr (h : d'.resolve = d.resolve) : o.file? d' = o.file? d := by
  cases o with
  | stderr => rfl
  | file path => exact congrFun h path

theorem file?_made : o.file? (o.made d) = o.file? d := by
  cases o with
  | stderr => rfl
  | file path => exact Outlet.file?_congr (Directory.resolve_create d path)

theorem resolve_put {line : String} : (o.put line d).resolve = d.resolve := by
  cases o with
  | stderr => rfl
  | file path => exact Directory.resolve_append d path _

/-- No deed changes where paths lead. -/
theorem resolve_act (x : Deed) : (x.act log d).resolve = d.resolve := by
  cases x with
  | message l text =>
    rw [Deed.act, Log.message]
    split
    · split
      · rfl
      · exact resolve_put
    · rfl
  | delete name => exact d.resolve_remove name
  | overwrite name text => exact d.resolve_write name text

/-! ### What becomes of the file -/

/-- The file of a log is emptied when the log is made, and no other file changes. -/
theorem contents?_made {other : String} :
    (o.made d).contents? other =
      if o.file? d = some other then some "" else d.contents? other := by
  cases o with
  | stderr => rfl
  | file path =>
    rw [Outlet.made, Outlet.file?, Directory.create]
    cases d.resolve path with
    | none => rfl
    | some name =>
      dsimp only
      simp only [Directory.contents?_write, Option.some.injEq, @eq_comm _ name]

/-- A line comes to the end of the file of a log, where the file is still there. -/
theorem contents?_put (h : o.file? d = some name) {line : String} :
    (o.put line d).contents? name = (d.contents? name).map (· ++ (line ++ "\n")) := by
  cases o with
  | stderr => cases h
  | file path =>
    rw [Outlet.put, Directory.append, show d.resolve path = some name from h]
    dsimp only
    cases ho : d.contents? name with
    | none => exact ho
    | some old =>
      dsimp only
      rw [Directory.contents?_write, if_pos rfl, Option.map_some]

/-- A message that is logged at level zero leaves no trace, and fails. -/
theorem message_disabled {text : String} :
    log.message .disabled text d = .error .nothingAtLevelZero d := by
  have hzero : Level.disabled.num ≤ log.level.num := Nat.zero_le _
  rw [Log.message, if_pos hzero, if_pos rfl]
  rfl

/-- Nothing that is done to files changes where the messages go. -/
theorem file?_deeds (deeds : List Deed) :
    o.file? (deeds.foldl (Deed.act log) d) = o.file? d := by
  induction deeds generalizing d with
  | nil => rfl
  | cons x deeds ih => rw [List.foldl_cons, ih, Outlet.file?_congr (resolve_act x)]

/-- **A deed that does not replace a file adds its line**, where the file is still there. -/
theorem contents?_act (hname : log.outlet.file? d = some name) (hx : ¬ x.Replaces name) :
    (x.act log d).contents? name = (d.contents? name).map (· ++ x.line log.level) := by
  have hid : d.contents? name = (d.contents? name).map (· ++ "") := by simp
  cases x with
  | message l text =>
    rw [Deed.act, Deed.line]
    split
    · rename_i hadmits
      obtain ⟨hl, hle⟩ := Bool.and_eq_true_iff.1 hadmits
      rw [Log.message, if_pos (of_decide_eq_true hle), if_neg (bne_iff_ne.1 hl)]
      exact contents?_put hname
    · rename_i hadmits
      rw [← hid]
      by_cases hle : l.num ≤ log.level.num
      · obtain rfl : l = .disabled := by
          by_contra hl
          exact hadmits (Bool.and_eq_true_iff.2 ⟨bne_iff_ne.2 hl, decide_eq_true hle⟩)
        rw [message_disabled]
        rfl
      · rw [Log.message, if_neg hle]
        rfl
  | delete other =>
    rw [Deed.act, Deed.line, ← hid, Directory.contents?_remove, if_neg]
    rintro rfl
    exact hx (Or.inl rfl)
  | overwrite other text =>
    rw [Deed.act, Deed.line, ← hid, Directory.contents?_write, if_neg]
    rintro rfl
    exact hx (Or.inr ⟨text, rfl⟩)

theorem Leaves.concat {level : Level} {o : Option String} (h : Leaves level name deeds o)
    (hx : ¬ x.Replaces name) :
    Leaves level name (deeds ++ [x]) (o.map (· ++ x.line level)) := by
  have hmore {after : List Deed} (hafter : ∀ y ∈ after, ¬ y.Replaces name) :
      ∀ y ∈ after ++ [x], ¬ y.Replaces name :=
    List.forall_mem_append.2 ⟨hafter, List.forall_mem_singleton.2 hx⟩
  have hlines (after : List Deed) :
      logLines level after ++ x.line level = logLines level (after ++ [x]) := by
    simp [logLines]
  cases h with
  | kept hafter =>
    rw [Option.map_some, hlines]
    exact .kept (hmore hafter)
  | overwritten hafter =>
    rw [Option.map_some, String.append_assoc, hlines, List.append_assoc, List.cons_append]
    exact .overwritten (hmore hafter)
  | deleted hafter =>
    rw [Option.map_none, List.append_assoc, List.cons_append]
    exact .deleted (hmore hafter)

/-- **The file of a log holds what the deeds leave of it**, after any of them. -/
theorem leaves_of_deeds (hname : log.outlet.file? d = some name)
    (hempty : d.contents? name = some "") (deeds : List Deed) :
    Leaves log.level name deeds ((deeds.foldl (Deed.act log) d).contents? name) := by
  induction deeds using List.reverseRecOn with
  | nil =>
    rw [List.foldl_nil, hempty]
    exact .kept nofun
  | append_singleton deeds x ih =>
    rw [List.foldl_append, List.foldl_cons, List.foldl_nil]
    by_cases hx : x.Replaces name
    · rcases hx with rfl | ⟨text, rfl⟩
      · rw [Deed.act, Directory.contents?_remove, if_pos rfl]
        exact .deleted nofun
      · have hleft : Leaves log.level name (deeds ++ [.overwrite name text])
            (some (text ++ logLines log.level [])) := .overwritten nofun
        rw [Deed.act, Directory.contents?_write, if_pos rfl]
        simpa [logLines] using hleft
    · rw [contents?_act ((file?_deeds deeds).trans hname) hx]
      exact ih.concat hx

end File

/-- **The file of a log**, whatever the variables of the environment are, and wherever paths lead.
Settings are made just if every variable that is set has a meaning, and they are what the variables
mean; otherwise no file changes. The file of the log is empty then, every other file is as it was,
and after any deeds the file holds what they leave of it. A message of level zero is a fault that
writes nothing. -/
theorem log_file_of_environment (debug : Bool) (processors : Nat)
    (log jobs verify : Option ByteArray) (d : Directory) :
    let env := Environment.ofBytes log jobs verify
    let made := Settings.read debug processors env d
    ((∃ c d', made = .ok c d') ↔ env.Meaningful) ∧
      (∀ e d', made = .error e d' → d' = d) ∧
      ∀ c d', made = .ok c d' →
        env.Means debug processors c ∧
        (∀ other, c.log.outlet.file? d ≠ some other → d'.contents? other = d.contents? other) ∧
        (∀ text s, c.log.message .disabled text s = .error .nothingAtLevelZero s) ∧
        ∀ name, c.log.outlet.file? d = some name →
          d'.contents? name = some "" ∧
          ∀ deeds, Leaves c.log.level name deeds
            ((deeds.foldl (Deed.act c.log) d').contents? name) := by
  intro env made
  refine ⟨?_, fun e d' => Settings.eq_of_read_eq_error, ?_⟩
  · rw [Environment.meaningful_iff debug processors]
    constructor
    · rintro ⟨c, d', h⟩
      exact ⟨c, (Settings.read_eq_ok_iff.1 h).1⟩
    · rintro ⟨c, hc⟩
      exact ⟨c, _, Settings.read_eq_ok_iff.2 ⟨hc, rfl⟩⟩
  · intro c d' h
    obtain ⟨hmeans, rfl⟩ := Settings.read_eq_ok_iff.1 h
    refine ⟨hmeans, fun other hother => ?_, fun text s => message_disabled, fun name hname => ?_⟩
    · rw [contents?_made, if_neg hother]
    · have hempty : (c.log.outlet.made d).contents? name = some "" := by
        rw [contents?_made, if_pos hname]
      exact ⟨hempty, leaves_of_deeds (file?_made.trans hname) hempty⟩

/-- What an earlier run has left in a log, and a file beside it. Two paths lead to the log. -/
def staleLog : Directory where
  files := [("log", "stale"), ("notes", "mine")]
  resolve path := if path = "/work/run/log.txt" ∨ path = "run/log.txt" then some "log" else none

/-- A run that logs two messages, the second one too verbose for its log. Then the log is
overwritten and takes a third one, and it is deleted before the fourth. -/
def loggedRun : List Deed :=
  [.message .error "one", .message .regEvent "two", .overwrite "log" "anew\n",
    .message .blockEvent "three", .delete "log", .message .error "four"]

/-- A log at a path from the root, two workers, and a check that is off as this is no debug
build. -/
theorem log_file_of_environment_run :
    let log : Log := ⟨.blockEvent, .file "/work/run/log.txt"⟩
    let made := staleLog.create "/work/run/log.txt"
    let after (n : Nat) := ((loggedRun.take n).foldl (Deed.act log) made).contents? "log"
    Settings.read false 8 (Environment.ofBytes (some "/work/run/log.txt:3".toUTF8)
        (some "2".toUTF8) none) staleLog = .ok ⟨log, 2, false⟩ made ∧
      log.outlet.file? staleLog = some "log" ∧
      made.contents? "notes" = some "mine" ∧
      (∀ n, Leaves .blockEvent "log" (loggedRun.take n) (after n)) ∧
      after 0 = some "" ∧
      after 2 = some "regspill-error: one\n" ∧
      after 4 = some "anew\nregspill-block-event: three\n" ∧
      after 6 = none := by
  intro log made after
  have hread : Settings.read false 8 (Environment.ofBytes (some "/work/run/log.txt:3".toUTF8)
      (some "2".toUTF8) none) staleLog = .ok ⟨log, 2, false⟩ made := rfl
  obtain ⟨-, -, hmade⟩ := log_file_of_environment false 8 (some "/work/run/log.txt:3".toUTF8)
    (some "2".toUTF8) none staleLog
  obtain ⟨-, hother, -, hfile⟩ := hmade _ _ hread
  obtain ⟨hempty, hleaves⟩ := hfile "log" rfl
  exact ⟨hread, rfl, hother "notes" (by decide), fun n => hleaves _, hempty, by decide +kernel,
    by decide +kernel, by decide +kernel⟩

end Residency
