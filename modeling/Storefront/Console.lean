import Storefront.Error
import Storefront.FileTree.Reading
import Storefront.Host
import Storefront.Outcome

/-!
Work at a console, step by step: each directory and file is made and each line is printed by a step of
its own, and what has been done before a failure stays.
-/

namespace Storefront

/-- The tree of files as it is, what has been printed so far, and the warnings. -/
structure Console where
  tree : FileTree
  printed : String := ""
  warnings : List Warning := []

/-- Work at a console. What has been done there stays also when the work fails. -/
def Work (α : Type) : Type := Console → Except Error α × Console

namespace Work

variable {α β γ : Type}

def run (x : Work α) (console : Console) : Except Error α × Console := x console

def pure (a : α) : Work α := fun console => (.ok a, console)

def bind (x : Work α) (f : α → Work β) : Work β := fun console =>
  match x.run console with
  | (.ok a, console) => (f a).run console
  | (.error e, console) => (.error e, console)

instance : Monad Work where
  pure := Work.pure
  bind := Work.bind

/-- What can be told from the tree alone. -/
def read (f : FileTree → Outcome Error α) : Work α := fun console =>
  let outcome := f console.tree
  (outcome.result, { console with warnings := console.warnings ++ outcome.warnings })

def change (f : FileTree → FileTree.Change) : Work Unit := fun console =>
  ((f console.tree).2.mapError .file, { console with tree := (f console.tree).1 })

def openFile (p : Path) : Work Location := fun console =>
  match console.tree.openFile p with
  | .ok (t, place) => (.ok place, { console with tree := t })
  | .error e => (.error (.file e), console)

/-- Writes a text to the file at a location. -/
def fill (host : Host) (place : Location) (text : String) : Work Unit := fun console =>
  if host.encodes text then
    (.ok (), { console with tree := console.tree.set place (.file text.toUTF8) })
  else (.error .notEncodable, console)

def printLine (host : Host) (line : String) : Work Unit := fun console =>
  if host.shows line then (.ok (), { console with printed := console.printed ++ (line ++ "\n") })
  else (.error .notShowable, console)

/-- Writes a text to a file, in directories that are made for it. -/
def save (host : Host) (p : Path) (text : String) : Work Unit := do
  change (·.makeParents p)
  let place ← openFile p
  fill host place text

/-! ### Steps that are done or fail -/

section steps

variable {host : Host} {x : Work α} {console console' : Console} {a : α} {e : Error} {t : FileTree}
  {p : Path} {place : Location} {text line : String} {trouble : FileTrouble}

theorem run_bind_of_ok (h : x.run console = (.ok a, console')) (f : α → Work β) :
    (x >>= f).run console = (f a).run console' := by
  show x.bind f console = _
  rw [bind, h]

theorem run_bind_of_error (h : x.run console = (.error e, console')) (f : α → Work β) :
    (x >>= f).run console = (.error e, console') := by
  show x.bind f console = _
  rw [bind, h]

theorem run_change_of_ok {f : FileTree → FileTree.Change} (h : f console.tree = (t, .ok ())) :
    (change f).run console = (.ok (), { console with tree := t }) := by
  rw [run, change, h]
  rfl

theorem run_change_of_error {f : FileTree → FileTree.Change}
    (h : f console.tree = (t, .error trouble)) :
    (change f).run console = (.error (.file trouble), { console with tree := t }) := by
  rw [run, change, h]
  rfl

theorem run_openFile_of_ok (h : console.tree.openFile p = .ok (t, place)) :
    (openFile p).run console = (.ok place, { console with tree := t }) := by
  rw [run, openFile, h]

theorem run_openFile_of_error (h : console.tree.openFile p = .error trouble) :
    (openFile p).run console = (.error (.file trouble), console) := by
  rw [run, openFile, h]

theorem run_fill_of_encodes (h : host.encodes text = true) (place : Location)
    (console : Console) : (fill host place text).run console =
      (.ok (), { console with tree := console.tree.set place (.file text.toUTF8) }) :=
  if_pos h

theorem run_fill_of_not_encodes (h : host.encodes text = false) (place : Location)
    (console : Console) : (fill host place text).run console = (.error .notEncodable, console) :=
  if_neg (by simp [h])

theorem run_printLine_of_shows (h : host.shows line = true) (console : Console) :
    (printLine host line).run console =
      (.ok (), { console with printed := console.printed ++ (line ++ "\n") }) :=
  if_pos h

theorem run_printLine_of_not_shows (h : host.shows line = false) (console : Console) :
    (printLine host line).run console = (.error .notShowable, console) :=
  if_neg (by simp [h])

end steps

theorem bind_pure (x : Work α) : x.bind pure = x := by
  funext console
  rcases h : x.run console with ⟨e | a, console'⟩
  · exact (run_bind_of_error h pure).trans h.symm
  · exact (run_bind_of_ok h pure).trans h.symm

theorem bind_assoc (x : Work α) (f : α → Work β) (g : β → Work γ) :
    (x.bind f).bind g = x.bind fun a => (f a).bind g := by
  funext console
  rcases h : x.run console with ⟨e | a, console'⟩
  · exact (run_bind_of_error (run_bind_of_error h f) g).trans (run_bind_of_error h _).symm
  · have hfirst : (x.bind f).run console = (f a).run console' := run_bind_of_ok h f
    refine Eq.trans ?_ (run_bind_of_ok h _).symm
    show (x.bind f).bind g console = (f a).bind g console'
    rw [bind, bind, hfirst]

instance : LawfulMonad Work :=
  LawfulMonad.mk' Work bind_pure (fun _ _ => rfl) bind_assoc

theorem run_read (f : FileTree → Outcome Error α) (console : Console) :
    (read f).run console = ((f console.tree).result,
      { console with warnings := console.warnings ++ (f console.tree).warnings }) := rfl

theorem read_pure (a : α) : (read fun _ => Pure.pure a) = Pure.pure a := by
  funext console
  show (Except.ok a, { console with warnings := console.warnings ++ [] }) = (.ok a, console)
  rw [List.append_nil]

/-- What is read in two steps can be read in one. -/
theorem read_bind (f : FileTree → Outcome Error α) (g : α → FileTree → Outcome Error β) :
    (read f >>= fun a => read (g a)) = read fun t => f t >>= (g · t) := by
  funext console
  show (read f >>= fun a => read (g a)).run console = (read _).run console
  rcases h : f console.tree with ⟨e | a, warnings⟩
  · have hread : (read f).run console =
        (.error e, { console with warnings := console.warnings ++ warnings }) := by
      rw [run_read, h]
    have hbind : (f console.tree >>= (g · console.tree)) = ⟨.error e, warnings⟩ := by
      rw [h]
      rfl
    rw [run_bind_of_error hread, run_read, hbind]
  · have hread : (read f).run console =
        (.ok a, { console with warnings := console.warnings ++ warnings }) := by
      rw [run_read, h]
    have hbind : (f console.tree >>= (g · console.tree)) =
        ⟨(g a console.tree).result, warnings ++ (g a console.tree).warnings⟩ := by
      rw [h]
      rfl
    rw [run_bind_of_ok hread, run_read, run_read, hbind, ← List.append_assoc]

/-- What is made of something that is read can be read itself. -/
theorem read_map_bind (f : FileTree → Outcome Error α) (g : α → β) (work : β → Work γ) :
    (read fun t => do return g (← f t)) >>= work = read f >>= fun a => work (g a) := by
  rw [← read_bind f fun a _ => Pure.pure (g a), LawfulMonad.bind_assoc]
  simp only [read_pure, LawfulMonad.pure_bind]

end Work

end Storefront
