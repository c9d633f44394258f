import LayeredConfig.Logging.Configure
import LayeredConfig.Proofs.File.Stores

/-!
# What a log leaves as it is

A log `Spares` a file if none of its handlers writes there. It then keeps the content of the file whatever records it
takes (`Spares.emitAll`), and it spares the file after it was configured, too, unless the tree asks for that very file
(`Spares.configure`).
-/

namespace LayeredConfig.Log

open File

/-- A file of this content is there, and no handler of the log writes to it. -/
structure Spares (log : Log) (place : Place) (content : ByteArray) : Prop where
  file : log.store.HasFile place content
  handlers : ∀ handler ∈ log.handlers, handler.file ≠ some place

variable {log : Log} {place other : Place} {content : ByteArray} {handler : Handler} {tree : Tree}

/-! ## Taking records -/

theorem Spares.handle (spares : log.Spares place content) (line : String) (apart : handler.file ≠ some place) :
    (log.handle line handler).Spares place content := by
  rw [Log.handle]
  split
  · exact ⟨spares.file, spares.handlers⟩
  · next target found =>
    refine ⟨spares.file.append ?_ _, spares.handlers⟩
    rintro rfl
    exact apart found

theorem Spares.foldl_handle (spares : log.Spares place content) (line : String) {handlers : List Handler}
    (apart : ∀ handler ∈ handlers, handler.file ≠ some place) :
    (handlers.foldl (Log.handle line) log).Spares place content := by
  induction handlers generalizing log with
  | nil => exact spares
  | cons handler rest ih =>
    rw [List.forall_mem_cons] at apart
    exact ih (spares.handle line apart.1) apart.2

theorem Spares.emit (spares : log.Spares place content) (record : Record) : (log.emit record).Spares place content := by
  rw [Log.emit]
  split
  · exact spares
  · split
    · split
      · exact spares
      · exact ⟨spares.file, spares.handlers⟩
    · exact spares.foldl_handle _ spares.handlers

theorem Spares.emitAll (spares : log.Spares place content) (records : List Record) :
    (log.emitAll records).Spares place content := by
  induction records generalizing log with
  | nil => exact spares
  | cons record rest ih => exact ih (spares.emit record)

/-- A log that writes to the error stream only has changed no file and no handler after it took records. -/
structure SameFiles (log after : Log) : Prop where
  store : after.store = log.store
  handlers : after.handlers = log.handlers

theorem SameFiles.trans {middle after : Log} (first : log.SameFiles middle) (second : middle.SameFiles after) :
    log.SameFiles after :=
  ⟨second.store.trans first.store, second.handlers.trans first.handlers⟩

theorem sameFiles_foldl_handle (line : String) {handlers : List Handler}
    (console : ∀ handler ∈ handlers, handler.file = none) : log.SameFiles (handlers.foldl (Log.handle line) log) := by
  induction handlers generalizing log with
  | nil => exact ⟨rfl, rfl⟩
  | cons handler rest ih =>
    rw [List.forall_mem_cons] at console
    have first : log.SameFiles (log.handle line handler) := by
      rw [Log.handle, console.1]
      exact ⟨rfl, rfl⟩
    exact first.trans (ih console.2)

theorem sameFiles_emit (console : ∀ handler ∈ log.handlers, handler.file = none) (record : Record) :
    log.SameFiles (log.emit record) := by
  rw [Log.emit]
  split
  · exact ⟨rfl, rfl⟩
  · split
    · split <;> exact ⟨rfl, rfl⟩
    · exact sameFiles_foldl_handle _ console

theorem sameFiles_emitAll (console : ∀ handler ∈ log.handlers, handler.file = none) (records : List Record) :
    log.SameFiles (log.emitAll records) := by
  induction records generalizing log with
  | nil => exact ⟨rfl, rfl⟩
  | cons record rest ih =>
    have first := sameFiles_emit console record
    refine first.trans (ih ?_)
    rw [first.handlers]
    exact console

/-! ## Configuring a log -/

theorem Spares.drop (spares : log.Spares place content) (name : String) : (log.drop name).Spares place content :=
  ⟨spares.file, fun handler member => spares.handlers handler (List.mem_of_mem_eraseP member)⟩

theorem Spares.add (spares : log.Spares place content) (apart : handler.file ≠ some place) :
    (log.add handler).Spares place content :=
  ⟨spares.file, List.forall_mem_append.2 ⟨spares.handlers, List.forall_mem_singleton.2 apart⟩⟩

theorem Spares.installConsole (spares : log.Spares place content) : log.installConsole.Spares place content := by
  rw [Log.installConsole]
  split
  · exact spares
  · exact spares.add nofun

theorem Spares.openFile (spares : log.Spares place content) (plain : Plain other) (apart : other ≠ place) :
    (log.openFile other).1.Spares place content := by
  have grown := Store.grown_ensureDirectory log.store (Path.ofNames other).parent
  rw [Log.openFile]
  split
  · next made =>
    rw [made] at grown
    exact ⟨grown.files spares.file, spares.handlers⟩
  · next store made =>
    rw [made] at grown
    split
    · exact ⟨grown.files spares.file, spares.handlers⟩
    · next opened =>
      have file := (grown.files spares.file).write rfl plain apart.symm opened
      exact Spares.add ⟨file, spares.handlers⟩ fun same => apart (Option.some.inj same)

theorem Spares.installFile (spares : log.Spares place content) (plain : Plain other) (apart : other ≠ place) :
    (log.installFile other).1.Spares place content := by
  have opened := (spares.drop Logging.fileName).openFile plain apart
  rw [Log.installFile]
  split
  · exact spares
  · split
    · next result =>
      rw [result] at opened
      exact opened
    · next result =>
      rw [result] at opened
      exact opened

theorem store_installConsole (log : Log) : log.installConsole.store = log.store := by
  rw [Log.installConsole]
  split <;> rfl

/-- Configuring a log spares a file that the tree does not ask for. -/
theorem Spares.configure (spares : log.Spares place content)
    (apart : ∀ path, Logging.wantedFile? tree = some path → path.resolve log.store.here ≠ place) :
    (log.configure tree).1.Spares place content := by
  let leveled : Log := { log with threshold := (Logging.levelOf tree).rank }
  let consoled := if Logging.wantsConsole tree then leveled.installConsole else leveled.drop Logging.consoleName
  have leveledSpares : leveled.Spares place content := ⟨spares.file, spares.handlers⟩
  have consoledSpares : consoled.Spares place content := by
    dsimp only [consoled]
    split
    · exact leveledSpares.installConsole
    · exact leveledSpares.drop _
  have same : consoled.store = log.store := by
    dsimp only [consoled]
    split
    · exact store_installConsole leveled
    · rfl
  unfold Log.configure
  dsimp only
  cases wanted : Logging.wantedFile? tree with
  | none => exact (consoledSpares.drop _).emit _
  | some path =>
    have elsewhere : path.resolve consoled.store.here ≠ place := by
      rw [same]
      exact apart path wanted
    have installed := consoledSpares.installFile (Path.plain_resolve _ path) elsewhere
    dsimp only [consoled, leveled] at installed consoledSpares ⊢
    by_cases null : path.holdsNull = true
    · rw [if_pos null]
      exact consoledSpares
    · rw [if_neg null]
      split
      · exact installed
      · exact installed.emit _

end LayeredConfig.Log
