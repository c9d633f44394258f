import LayeredConfig.Proofs.Logging.Sparing
import Mathlib

/-!
# The handlers of a log

Configuring a log knows its own two handlers by their names. A log `IsTidy` if it has at most one handler of each of these
names, and the others are what they were; one `Step` keeps that (`IsTidy.step`), whether it configures the log or is anything
else that leaves the handlers alone. So after every history (`Reaches`) a configuration that succeeds leaves what its tree
asks for, and done once more it only takes a record: `configure_of_reaches`.
-/

namespace LayeredConfig.Log

open File

variable {log after start : Log} {tree : Tree} {name : String} {handler : Handler} {own : List Handler} {place : Place}
  {content : ByteArray}

/-! ## Handlers by name -/

/-- Whether a handler has a name. -/
def bears (name : String) (handler : Handler) : Bool :=
  handler.name == some name

/-- Whether a handler has neither of the two names that configuring knows. -/
def isOther (handler : Handler) : Bool :=
  !bears Logging.consoleName handler && !bears Logging.fileName handler

/-- The handlers of a name. -/
def named (log : Log) (name : String) : List Handler :=
  log.handlers.filter (bears name)

/-- The handler that writes to the error stream. -/
def consoleHandler : Handler :=
  ⟨some Logging.consoleName, none⟩

/-- The handler that writes to the file at a place. -/
def fileHandler (place : Place) : Handler :=
  ⟨some Logging.fileName, some place⟩

/-- A property that no handler of a name has. -/
def Excludes (kept : Handler → Bool) (name : String) : Prop :=
  ∀ handler, bears name handler = true → kept handler = false

theorem excludes_bears {name other : String} (apart : name ≠ other) : Excludes (bears name) other := by
  intro handler borne
  rw [bears, eq_of_beq borne, beq_eq_false_iff_ne]
  exact fun same => apart (Option.some.inj same).symm

theorem excludes_isOther_console : Excludes isOther Logging.consoleName := by
  intro handler borne
  rw [isOther, borne]
  rfl

theorem excludes_isOther_file : Excludes isOther Logging.fileName := by
  intro handler borne
  rw [isOther, borne, Bool.not_true, Bool.and_false]

theorem handler?_eq (log : Log) (name : String) : log.handler? name = (log.named name).head? :=
  List.head?_filter.symm

/-- Removing a handler removes the first of its name. -/
theorem named_drop (log : Log) (name : String) : (log.drop name).named name = (log.named name).tail := by
  show (log.handlers.eraseP (bears name)).filter (bears name) = (log.handlers.filter (bears name)).tail
  induction log.handlers with
  | nil => rfl
  | cons first rest ih =>
    by_cases borne : bears name first = true
    · rw [List.eraseP_cons_of_pos borne, List.filter_cons_of_pos borne, List.tail_cons]
    · rw [List.eraseP_cons_of_neg borne, List.filter_cons_of_neg borne, List.filter_cons_of_neg borne, ih]

/-- Removing a handler leaves those of other names in their order. -/
theorem filter_drop {kept : Handler → Bool} (excludes : Excludes kept name) (log : Log) :
    (log.drop name).handlers.filter kept = log.handlers.filter kept := by
  show (log.handlers.eraseP (bears name)).filter kept = log.handlers.filter kept
  induction log.handlers with
  | nil => rfl
  | cons first rest ih =>
    by_cases borne : bears name first = true
    · rw [List.eraseP_cons_of_pos borne, List.filter_cons_of_neg (by simp [excludes first borne])]
    · rw [List.eraseP_cons_of_neg borne, List.filter_cons, List.filter_cons, ih]

theorem named_add (borne : bears name handler = true) (log : Log) :
    (log.add handler).named name = log.named name ++ [handler] := by
  rw [named, add, List.filter_append, List.filter_cons_of_pos borne]
  rfl

theorem filter_add {kept : Handler → Bool} (excludes : Excludes kept name) (borne : bears name handler = true) (log : Log) :
    (log.add handler).handlers.filter kept = log.handlers.filter kept := by
  rw [add, List.filter_append, List.filter_cons_of_neg (by simp [excludes handler borne]), List.filter_nil,
    List.append_nil]

/-! ## Taking records -/

/-- A log that only took records: its threshold and handlers are the same, and its files hold what they held, some of
them more behind it. -/
structure Extended (log after : Log) : Prop where
  threshold : after.threshold = log.threshold
  handlers : after.handlers = log.handlers
  here : after.store.here = log.store.here
  files : ∀ {place content}, log.store.HasFile place content → ∃ more, after.store.HasFile place (content ++ more)

theorem Extended.refl (log : Log) : log.Extended log :=
  ⟨rfl, rfl, rfl, fun {_ content} file => ⟨.empty, (ByteArray.append_empty (b := content)).symm ▸ file⟩⟩

theorem Extended.trans {middle : Log} (first : log.Extended middle) (second : middle.Extended after) :
    log.Extended after where
  threshold := second.threshold.trans first.threshold
  handlers := second.handlers.trans first.handlers
  here := second.here.trans first.here
  files file := by
    obtain ⟨more, file⟩ := first.files file
    obtain ⟨further, file⟩ := second.files file
    rw [ByteArray.append_assoc] at file
    exact ⟨more ++ further, file⟩

/-- Adding to a file leaves what it held in front. -/
theorem extended_append (log : Log) (place : Place) (added : ByteArray) :
    log.Extended { log with store := log.store.append place added } := by
  refine ⟨rfl, rfl, ?_, fun {other content} file => ?_⟩
  · show (log.store.append place added).here = log.store.here
    rw [Store.append]
    split <;> rfl
  · by_cases same : other = place
    · subst same
      have below : other ≠ [] := by
        rintro rfl
        cases file
      refine ⟨added, ?_⟩
      show (log.store.append other added).HasFile other (content ++ added)
      have there : log.store.node? other = some (.file content) := file
      rw [Store.append, there]
      exact Store.hasFile_put below
    · exact ⟨.empty, (ByteArray.append_empty (b := content)).symm ▸ file.append same added⟩

theorem extended_handle (line : String) (log : Log) (handler : Handler) : log.Extended (log.handle line handler) := by
  rw [Log.handle]
  split
  · exact ⟨rfl, rfl, rfl, (Extended.refl log).files⟩
  · exact extended_append log _ _

theorem extended_foldl_handle (line : String) (handlers : List Handler) (log : Log) :
    log.Extended (handlers.foldl (Log.handle line) log) := by
  induction handlers generalizing log with
  | nil => exact .refl log
  | cons handler rest ih => exact (extended_handle line log handler).trans (ih _)

theorem extended_emit (log : Log) (record : Record) : log.Extended (log.emit record) := by
  rw [Log.emit]
  split
  · exact .refl log
  · split
    · split
      · exact .refl log
      · exact ⟨rfl, rfl, rfl, (Extended.refl log).files⟩
    · exact extended_foldl_handle _ _ log

/-! ## The steps of a configuration -/

/-- The record of a log that was configured. -/
def configuredRecord (tree : Tree) : Record :=
  .debug Logging.logger s!"Logging initialised at level {(Logging.levelOf tree).name}"

/-- A log with its threshold and with the handler for the error stream as a tree asks for them. -/
def leveled (log : Log) (tree : Tree) : Log :=
  let log := { log with threshold := (Logging.levelOf tree).rank }
  if Logging.wantsConsole tree then log.installConsole else log.drop Logging.consoleName

/-- A log with the handler for a file as a tree asks for it, and the failure. -/
def filed (log : Log) (tree : Tree) : Log × Option Error :=
  match Logging.wantedFile? tree with
  | none => (log.drop Logging.fileName, none)
  | some path =>
    if path.holdsNull then (log, some .nullInPath)
    else log.installFile (path.resolve log.store.here)

/-- What configuring ends with, from the log as it then is and the failure: a record if nothing failed. -/
def concluded (tree : Tree) (log : Log) : Option Error → Log × Option Error
  | some e => (log, some e)
  | none => (log.emit (configuredRecord tree), none)

/-- Configuring a log sets its level, its handler for the error stream and its handler for a file, in this order, and
takes a record if nothing failed. -/
theorem configure_cases (log : Log) (tree : Tree) :
    (∃ after, (log.leveled tree).filed tree = (after, none)
        ∧ log.configure tree = (after.emit (configuredRecord tree), none))
      ∨ ∃ after e, (log.leveled tree).filed tree = (after, some e) ∧ log.configure tree = (after, some e) := by
  have steps : log.configure tree
      = concluded tree ((log.leveled tree).filed tree).1 ((log.leveled tree).filed tree).2 := rfl
  rw [steps]
  obtain ⟨after, failure⟩ := (log.leveled tree).filed tree
  cases failure with
  | none => exact .inl ⟨after, rfl, rfl⟩
  | some e => exact .inr ⟨after, e, rfl, rfl⟩

/-- Opening a file adds a handler for it, or fails and adds none. -/
theorem openFile_cases (log : Log) (place : Place) :
    ∃ store : Store, store.here = log.store.here
      ∧ (log.openFile place = (({ log with store := store } : Log).add (fileHandler place), none)
        ∨ ∃ failure, log.openFile place = ({ log with store := store }, some failure)) := by
  have grown := Store.grown_ensureDirectory log.store (Path.ofNames place).parent
  rw [Log.openFile]
  split
  · next made failure ensured =>
    rw [ensured] at grown
    exact ⟨made, grown.here, .inr ⟨failure, rfl⟩⟩
  · next made ensured =>
    rw [ensured] at grown
    split
    · next failure _ => exact ⟨made, grown.here, .inr ⟨failure, rfl⟩⟩
    · next opened writes => exact ⟨opened, (Store.here_of_write writes).trans grown.here, .inl rfl⟩

/-- Writing to a file at a place leaves a handler that does so already, and otherwise removes the first one of its name before
the file is opened. -/
theorem installFile_cases (log : Log) (place : Place) :
    ((log.handler? Logging.fileName).bind Handler.file = some place ∧ log.installFile place = (log, none))
      ∨ ∃ store : Store, store.here = log.store.here
        ∧ (log.installFile place
            = (({ log.drop Logging.fileName with store := store } : Log).add (fileHandler place), none)
          ∨ ∃ e, e.category = .io
            ∧ log.installFile place = ({ log.drop Logging.fileName with store := store }, some e)) := by
  by_cases already : (log.handler? Logging.fileName).bind Handler.file = some place
  · exact .inl ⟨already, by rw [Log.installFile, if_pos already]⟩
  · obtain ⟨store, here, opened | ⟨failure, opened⟩⟩ := openFile_cases (log.drop Logging.fileName) place
    · exact .inr ⟨store, here, .inl (by rw [Log.installFile, if_neg already, opened])⟩
    · exact .inr ⟨store, here, .inr ⟨_, rfl, by rw [Log.installFile, if_neg already, opened]⟩⟩

/-! ## At most one handler of a name -/

/-- A log that has at most one handler of each of the two names, one that configuring installs, beside other handlers. -/
structure IsTidy (log : Log) (own : List Handler) : Prop where
  console : log.named Logging.consoleName = [] ∨ log.named Logging.consoleName = [consoleHandler]
  file : log.named Logging.fileName = [] ∨ ∃ place, log.named Logging.fileName = [fileHandler place]
  others : log.handlers.filter isOther = own

/-- A log is as tidy as one with the same handlers. -/
theorem IsTidy.of_handlers (tidy : log.IsTidy own) (same : after.handlers = log.handlers) : after.IsTidy own := by
  have named : after.named = log.named := funext fun name => congrArg (List.filter (bears name)) same
  exact ⟨named ▸ tidy.console, named ▸ tidy.file, same ▸ tidy.others⟩

theorem isTidy_of_others
    (fresh : ∀ handler ∈ log.handlers, handler.name ≠ some Logging.consoleName ∧ handler.name ≠ some Logging.fileName) :
    log.IsTidy log.handlers := by
  have none (name : String) (absent : ∀ handler ∈ log.handlers, handler.name ≠ some name) : log.named name = [] :=
    List.filter_eq_nil_iff.2 fun handler member borne => absent handler member (eq_of_beq borne)
  refine ⟨.inl (none _ fun handler member => (fresh handler member).1),
    .inl (none _ fun handler member => (fresh handler member).2), List.filter_eq_self.2 fun handler member => ?_⟩
  simp [isOther, bears, fresh handler member]

/-! ## What a configuration leaves -/

theorem store_leveled (log : Log) (tree : Tree) : (log.leveled tree).store = log.store := by
  rw [leveled]
  split
  · exact store_installConsole _
  · rfl

theorem threshold_leveled (log : Log) (tree : Tree) : (log.leveled tree).threshold = (Logging.levelOf tree).rank := by
  rw [leveled]
  split
  · rw [installConsole]
    split <;> rfl
  · rfl

theorem filter_leveled {kept : Handler → Bool} (excludes : Excludes kept Logging.consoleName) (log : Log) (tree : Tree) :
    (log.leveled tree).handlers.filter kept = log.handlers.filter kept := by
  rw [leveled]
  split
  · rw [installConsole]
    split
    · rfl
    · exact filter_add excludes rfl _
  · exact filter_drop excludes _

theorem named_leveled (tidy : log.IsTidy own) (tree : Tree) :
    (log.leveled tree).named Logging.consoleName = if Logging.wantsConsole tree then [consoleHandler] else [] := by
  rw [leveled]
  generalize seen : ({ log with threshold := (Logging.levelOf tree).rank } : Log) = first
  have tidy : first.IsTidy own := seen ▸ tidy.of_handlers rfl
  split
  · rw [installConsole, handler?_eq]
    rcases tidy.console with none | one
    · rw [none]
      show (first.add consoleHandler).named _ = _
      rw [named_add rfl, none]
      rfl
    · rw [one]
      exact one
  · rw [named_drop]
    rcases tidy.console with none | one
    · rw [none]
      rfl
    · rw [one]
      rfl

/-- What the handler for a file leaves of the log: all but the handlers of its name and the files. -/
theorem filter_filed {kept : Handler → Bool} (excludes : Excludes kept Logging.fileName) (log : Log) (tree : Tree) :
    (log.filed tree).1.handlers.filter kept = log.handlers.filter kept
      ∧ (log.filed tree).1.threshold = log.threshold ∧ (log.filed tree).1.store.here = log.store.here := by
  have dropped := filter_drop excludes log
  rw [filed]
  split
  · exact ⟨dropped, rfl, rfl⟩
  · next path _ =>
    split
    · exact ⟨rfl, rfl, rfl⟩
    · obtain ⟨-, same⟩ | ⟨store, here, installed | ⟨e, -, failed⟩⟩ :=
        installFile_cases log (path.resolve log.store.here)
      · rw [same]
        exact ⟨rfl, rfl, rfl⟩
      · rw [installed]
        exact ⟨(filter_add excludes rfl _).trans dropped, rfl, here⟩
      · rw [failed]
        exact ⟨dropped, rfl, here⟩

/-- The handlers for a file: the one that the tree asks for after a success; those that were there, or none, after a failure,
and none if it was one of files. -/
theorem named_filed (tidy : log.IsTidy own) (tree : Tree) :
    match (log.filed tree).2 with
    | none => (log.filed tree).1.named Logging.fileName
        = ((Logging.wantedFile? tree).map fun path => fileHandler (path.resolve log.store.here)).toList
    | some e => (log.filed tree).1.named Logging.fileName = []
        ∨ e.category ≠ .io ∧ (log.filed tree).1.named Logging.fileName = log.named Logging.fileName := by
  have dropped : (log.drop Logging.fileName).named Logging.fileName = [] := by
    rw [named_drop]
    rcases tidy.file with none | ⟨place, one⟩
    · rw [none]
      rfl
    · rw [one]
      rfl
  rw [filed]
  cases Logging.wantedFile? tree with
  | none => exact dropped
  | some path =>
    dsimp only
    by_cases null : path.holdsNull = true
    · rw [if_pos null]
      exact .inr ⟨by decide, rfl⟩
    · rw [if_neg null]
      obtain ⟨already, same⟩ | ⟨store, -, installed | ⟨e, -, failed⟩⟩ :=
        installFile_cases log (path.resolve log.store.here)
      · rw [same]
        rw [handler?_eq] at already
        show log.named Logging.fileName = [_]
        rcases tidy.file with none | ⟨place, one⟩
        · rw [none] at already
          cases already
        · rw [one] at already ⊢
          cases already
          rfl
      · rw [installed]
        show Log.named (Log.add _ _) _ = [_]
        rw [named_add rfl]
        exact congrArg (· ++ _) dropped
      · rw [failed]
        exact .inl dropped

theorem isTidy_leveled (tidy : log.IsTidy own) (tree : Tree) : (log.leveled tree).IsTidy own := by
  have kept := filter_leveled (excludes_bears (by decide) : Excludes (bears Logging.fileName) _) log tree
  refine ⟨?_, ?_, (filter_leveled excludes_isOther_console log tree).trans tidy.others⟩
  · rw [named_leveled tidy]
    split
    · exact .inr rfl
    · exact .inl rfl
  · rw [named, kept]
    exact tidy.file

theorem isTidy_filed (tidy : log.IsTidy own) (tree : Tree) : (log.filed tree).1.IsTidy own := by
  have file := named_filed tidy tree
  have kept := filter_filed (excludes_bears (by decide) : Excludes (bears Logging.consoleName) _) log tree
  refine ⟨?_, ?_, (filter_filed excludes_isOther_file log tree).1.trans tidy.others⟩
  · rw [named, kept.1]
    exact tidy.console
  · split at file
    · rw [file]
      cases Logging.wantedFile? tree with
      | none => exact .inl rfl
      | some path => exact .inr ⟨_, rfl⟩
    · rcases file with none | ⟨-, same⟩
      · exact .inl none
      · rw [same]
        exact tidy.file

/-- One configuration leaves a tidy log tidy, whether it succeeds or fails. -/
theorem IsTidy.configure (tidy : log.IsTidy own) (tree : Tree) : (log.configure tree).1.IsTidy own := by
  have filed := isTidy_filed (isTidy_leveled tidy tree) tree
  obtain ⟨after, filing, configured⟩ | ⟨after, e, filing, configured⟩ := configure_cases log tree
  · rw [filing] at filed
    rw [configured]
    exact filed.of_handlers (extended_emit after _).handlers
  · rw [filing] at filed
    rw [configured]
    exact filed

/-- The level and the two handlers of a log are what a tree asks for, the file as seen from a working directory. -/
structure IsConfigured (log : Log) (tree : Tree) (here : Place) : Prop where
  threshold : log.threshold = (Logging.levelOf tree).rank
  console : log.named Logging.consoleName = if Logging.wantsConsole tree then [consoleHandler] else []
  file : log.named Logging.fileName
    = ((Logging.wantedFile? tree).map fun path => fileHandler (path.resolve here)).toList

theorem IsConfigured.extended {here : Place} (configured : log.IsConfigured tree here) (extended : log.Extended after) :
    after.IsConfigured tree here := by
  have named : after.named = log.named := funext fun name => congrArg (List.filter (bears name)) extended.handlers
  exact ⟨extended.threshold.trans configured.threshold, named ▸ configured.console, named ▸ configured.file⟩

theorem isConfigured_filed (tidy : log.IsTidy own) (works : ((log.leveled tree).filed tree) = (after, none)) :
    after.IsConfigured tree log.store.here ∧ after.store.here = log.store.here := by
  have file := named_filed (isTidy_leveled tidy tree) tree
  obtain ⟨console, threshold, here⟩ :=
    filter_filed (excludes_bears (by decide) : Excludes (bears Logging.consoleName) _) (log.leveled tree) tree
  rw [works, store_leveled] at file here
  rw [works] at console threshold
  exact ⟨⟨threshold.trans (threshold_leveled log tree), console.trans (named_leveled tidy tree), file⟩, here⟩

/-- A configuration that succeeds leaves what its tree asks for. -/
theorem isConfigured_configure (tidy : log.IsTidy own) (works : (log.configure tree).2 = none) :
    (log.configure tree).1.IsConfigured tree log.store.here
      ∧ (log.configure tree).1.store.here = log.store.here := by
  obtain ⟨after, filing, configured⟩ | ⟨after, e, filing, configured⟩ := configure_cases log tree
  · obtain ⟨settled, here⟩ := isConfigured_filed tidy filing
    have extended := extended_emit after (configuredRecord tree)
    rw [configured]
    exact ⟨settled.extended extended, extended.here.trans here⟩
  · rw [configured] at works
    cases works

/-- A configuration that fails because of a file leaves no handler for one. -/
theorem named_file_of_io (tidy : log.IsTidy own) {e : Error} (fails : (log.configure tree).2 = some e)
    (io : e.category = .io) : (log.configure tree).1.named Logging.fileName = [] := by
  have file := named_filed (isTidy_leveled tidy tree) tree
  obtain ⟨after, filing, configured⟩ | ⟨after, e, filing, configured⟩ := configure_cases log tree
  · rw [configured] at fails
    cases fails
  · rw [configured] at fails ⊢
    cases fails
    rw [filing] at file
    exact file.resolve_right fun other => other.1 io

/-! ## Configuring once more -/

theorem drop_of_named (none : log.named name = []) : log.drop name = log := by
  have same : log.handlers.eraseP (bears name) = log.handlers :=
    List.eraseP_of_forall_not (List.filter_eq_nil_iff.1 none)
  show ({ log with handlers := log.handlers.eraseP (bears name) } : Log) = log
  rw [same]

theorem leveled_of_isConfigured {here : Place} (configured : log.IsConfigured tree here) : log.leveled tree = log := by
  have console := configured.console
  rw [leveled, ← configured.threshold]
  split
  · next wanted =>
    rw [if_pos wanted] at console
    rw [installConsole, handler?_eq, console]
    rfl
  · next unwanted =>
    rw [if_neg unwanted] at console
    exact drop_of_named console

theorem filed_of_isConfigured (configured : log.IsConfigured tree log.store.here)
    (noNull : ∀ path, Logging.wantedFile? tree = some path → path.holdsNull = false) : log.filed tree = (log, none) := by
  have file := configured.file
  rw [filed]
  cases wanted : Logging.wantedFile? tree with
  | none =>
    rw [wanted] at file
    exact congrArg (·, none) (drop_of_named file)
  | some path =>
    rw [wanted] at file
    dsimp only
    rw [noNull path wanted, if_neg Bool.false_ne_true, installFile, handler?_eq, file]
    exact if_pos rfl

/-- The file that a configuration found could be named. -/
theorem noNull_of_configure (works : (log.configure tree).2 = none) (path : Path)
    (wanted : Logging.wantedFile? tree = some path) : path.holdsNull = false := by
  obtain ⟨after, filing, -⟩ | ⟨after, e, -, configured⟩ := configure_cases log tree
  · rw [filed, wanted] at filing
    dsimp only at filing
    split at filing
    · cases filing
    · next clean => exact Bool.eq_false_iff.2 clean
  · rw [configured] at works
    cases works

/-- A configuration that succeeded, done once more, only takes its record. -/
theorem configure_configure (tidy : log.IsTidy own) (works : (log.configure tree).2 = none) :
    (log.configure tree).1.configure tree = ((log.configure tree).1.emit (configuredRecord tree), none) := by
  obtain ⟨configured, here⟩ := isConfigured_configure tidy works
  rw [← here] at configured
  have settled := filed_of_isConfigured configured (noNull_of_configure works)
  obtain ⟨after, filing, again⟩ | ⟨after, e, filing, again⟩ := configure_cases (log.configure tree).1 tree
  · rw [leveled_of_isConfigured configured, settled] at filing
    cases filing
    exact again
  · rw [leveled_of_isConfigured configured, settled] at filing
    cases filing

/-! ## Histories -/

/-- What may happen to a log: it is configured, or something else that leaves its handlers as they are, such as records
that it takes, changes to the files, and another working directory. -/
inductive Step : Log → Log → Prop
  | configure (log : Log) (tree : Tree) : Step log (log.configure tree).1
  | other {log after : Log} (same : after.handlers = log.handlers) : Step log after

/-- A log that a history has led to. -/
def Reaches : Log → Log → Prop :=
  Relation.ReflTransGen Step

theorem IsTidy.step (tidy : log.IsTidy own) (step : Step log after) : after.IsTidy own := by
  cases step with
  | configure tree => exact tidy.configure tree
  | other same => exact tidy.of_handlers same

theorem IsTidy.reaches (tidy : start.IsTidy own) (reaches : start.Reaches log) : log.IsTidy own := by
  induction reaches with
  | refl => exact tidy
  | tail _ step ih => exact ih.step step

theorem IsTidy.length_named_le (tidy : log.IsTidy own) :
    (log.named Logging.consoleName).length ≤ 1 ∧ (log.named Logging.fileName).length ≤ 1 := by
  constructor
  · rcases tidy.console with none | one
    · exact none ▸ Nat.zero_le 1
    · exact one ▸ Nat.le_refl 1
  · rcases tidy.file with none | ⟨place, one⟩
    · exact none ▸ Nat.zero_le 1
    · exact one ▸ Nat.le_refl 1

/-- Whatever has happened to a log that began without handlers of the two names, it has at most one of each, and the
others are there in their order. A configuration that succeeds then sets the level and the two handlers as its tree asks
for, seen from the working directory; done once more it succeeds, changes no handler and adds to files only. One that
fails because of a file leaves no handler for a file. -/
theorem configure_of_reaches
    (fresh : ∀ handler ∈ start.handlers, handler.name ≠ some Logging.consoleName ∧ handler.name ≠ some Logging.fileName)
    (reaches : start.Reaches log) :
    (log.named Logging.consoleName).length ≤ 1 ∧ (log.named Logging.fileName).length ≤ 1
      ∧ log.handlers.filter isOther = start.handlers
      ∧ ∀ tree, ((log.configure tree).2 = none →
          (log.configure tree).1.IsConfigured tree log.store.here
          ∧ ((log.configure tree).1.configure tree).2 = none
          ∧ ((log.configure tree).1.configure tree).1.handlers = (log.configure tree).1.handlers
          ∧ ∀ place content, (log.configure tree).1.store.HasFile place content →
            ∃ more, ((log.configure tree).1.configure tree).1.store.HasFile place (content ++ more))
        ∧ ∀ e, (log.configure tree).2 = some e → e.category = .io →
          (log.configure tree).1.named Logging.fileName = [] := by
  have tidy := (isTidy_of_others fresh).reaches reaches
  refine ⟨tidy.length_named_le.1, tidy.length_named_le.2, tidy.others, fun tree => ⟨fun works => ?_, fun e => ?_⟩⟩
  · have extended := extended_emit (log.configure tree).1 (configuredRecord tree)
    rw [configure_configure tidy works]
    exact ⟨(isConfigured_configure tidy works).1, rfl, extended.handlers, fun _ _ => extended.files⟩
  · exact named_file_of_io tidy

/-- A log with handlers of other names, one of them for a file. -/
def auditedLog : Log :=
  ⟨30, [⟨none, none⟩, ⟨some "audit", some ["var", "audit.log"]⟩], ⟨[(["work"], .directory)], ["work"]⟩, "", ""⟩

/-- A configuration that asks for lines in a file only. -/
def loggingTree (file : String) : Tree :=
  let logging := [("root", Tree.mapping [("level", .string "debug"), ("handlers", .sequence [.string "file"])]),
    ("handlers", .mapping [("file", .mapping [("filename", .string file)])])]
  .mapping [("hydra", .mapping [("job_logging", .mapping logging)])]

/-- The log after one configuration, and after another one that puts a file in the place of the error stream. -/
def auditedLogs : Log × Log :=
  let first := (auditedLog.configure (.mapping [])).1
  (first, (first.configure (loggingTree "logs/../job.log")).1)

/-- The handler for the error stream gives way to one for a file, and a directory in its place takes that away again. -/
theorem configure_of_reaches_auditedLog :
    auditedLog.Reaches auditedLogs.2 ∧ auditedLogs.2.handlers.filter isOther = auditedLog.handlers
      ∧ auditedLogs.2.threshold = 10 ∧ auditedLogs.2.named Logging.consoleName = []
      ∧ auditedLogs.2.named Logging.fileName = [fileHandler ["work", "job.log"]]
      ∧ (auditedLogs.2.configure (loggingTree "logs/../job.log")).1.handlers = auditedLogs.2.handlers
      ∧ (auditedLogs.2.configure (loggingTree "/work")).2 = some (.logUnwritable "/work" .isDirectory)
      ∧ (auditedLogs.2.configure (loggingTree "/work")).1.named Logging.fileName = [] := by
  have fresh : ∀ handler ∈ auditedLog.handlers,
      handler.name ≠ some Logging.consoleName ∧ handler.name ≠ some Logging.fileName := by decide
  have first : auditedLog.Reaches auditedLogs.1 := .single (.configure auditedLog _)
  have second : auditedLog.Reaches auditedLogs.2 := first.tail (.configure auditedLogs.1 (loggingTree "logs/../job.log"))
  have works : (auditedLogs.1.configure (loggingTree "logs/../job.log")).2 = none := by decide_cbv
  have fails : (auditedLogs.2.configure (loggingTree "/work")).2 = some (.logUnwritable "/work" .isDirectory) := by
    decide_cbv
  have wanted : Logging.wantedFile? (loggingTree "logs/../job.log") = some ⟨.here, ["logs", "..", "job.log"]⟩ := by
    decide +kernel
  have level : Logging.levelOf (loggingTree "logs/../job.log") = .debug := by decide_cbv
  obtain ⟨-, -, -, calls⟩ := configure_of_reaches fresh first
  obtain ⟨configured, -, same, -⟩ := (calls (loggingTree "logs/../job.log")).1 works
  obtain ⟨-, -, other, calls⟩ := configure_of_reaches fresh second
  have file := configured.file
  rw [wanted] at file
  exact ⟨second, other, configured.threshold.trans (congrArg Level.rank level), configured.console, file, same, fails,
    (calls (loggingTree "/work")).2 _ fails rfl⟩

end LayeredConfig.Log
