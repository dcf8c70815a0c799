import Mathlib.Logic.Function.Basic
import Mathlib.Tactic.SplitIfs
import Harbor.Library.Procedure

/-!
# Files, and procedures that may be cut off

`Procedure.cut` runs a procedure on a finite list of choices of its
environment; when the list ends first, the procedure is cut off where it
stands.  `Procedure.Keeps` is the logic for it: an assertion that holds at
every moment of a run, and one that holds with the value at its end.

The statements are those of programs that replace files.  A rename takes effect
as a whole or not at all, a write may leave a part of what was to be written.
-/

namespace Harbor.Library

open Function List Option

namespace Procedure

variable {Statement : Type} {Answer : Statement → Type} {Value Other World Choice : Type}
  (execute : Choice → World → (stmt : Statement) → Answer stmt × World)

def cut : Procedure Statement Answer Value → List Choice → World → Option Value × World
  | .done value, _, world => (some value, world)
  | .issue _ _, [], world => (none, world)
  | .issue statement rest, choice :: choices, world =>
    let answered := execute choice world statement
    (rest answered.1).cut choices answered.2

/-- Whatever the environment chooses, `held` is true at every moment from here
on and `ends` is true at the end. -/
def Keeps (held : World → Prop) (ends : Value → World → Prop) :
    Procedure Statement Answer Value → World → Prop
  | .done value, world => held world ∧ ends value world
  | .issue statement rest, world =>
    held world ∧ ∀ choice, (rest (execute choice world statement).1).Keeps held ends
        (execute choice world statement).2

variable {execute} {held : World → Prop} {ends : Value → World → Prop}
variable {w : World}

theorem cut_keeps {p : Procedure Statement Answer Value}
    (keep : p.Keeps execute held ends w) (sel : List Choice) : held (p.cut execute sel w).2 ∧
      ∀ val, (p.cut execute sel w).1 = some val → ends val (p.cut execute sel w).2 := by
  induction p generalizing w sel with
  | done val =>
    refine ⟨keep.1, ?_⟩
    intro alt eq
    cases eq
    exact keep.2
  | issue stmt rest ih =>
    cases sel with
    | nil =>
      refine ⟨keep.1, ?_⟩
      intro alt eq
      cases eq
    | cons io sel => exact ih _ (keep.2 io) sel

end Procedure

/-! ## Files -/

abbrev Disk (Path Content : Type) : Type :=
  Path → Option Content

inductive FileOp (Path Content : Type) where
  | read (path : Path)
  | write (path : Path) (content : Content)
  | rename (source target : Path)

inductive ReadAnswer (Content : Type) where
  | missing
  | failed
  | content (content : Content)
deriving DecidableEq, Repr

def ReadAnswer.toOption {Content : Type} : ReadAnswer Content → Option Content
  | .content found => some found
  | _ => none

def FileOp.Answer {Path Content : Type} : FileOp Path Content → Type
  | .read _ => ReadAnswer Content
  | _ => Bool

/-- How a statement ends: completely, with an error and without effect, or, if
it is a write, with an error after a part was written. -/
inductive Outcome where
  | ok
  | failed
  | torn (length : Nat)
deriving DecidableEq, Repr

abbrev FileProcedure (Path Content Value : Type) : Type :=
  Procedure (FileOp Path Content) FileOp.Answer Value

section

variable {Path Content V : Type} [DecidableEq Path] (shorten : Nat → Content → Content)

/-- One statement; a write that is cut short leaves what `shorten` says. -/
def FileOp.perform (outcome : Outcome) (disk : Disk Path Content) :
    (op : FileOp Path Content) → op.Answer × Disk Path Content
  | .read path =>
    match outcome, disk path with
    | .ok, some content => (ReadAnswer.content content, disk)
    | .ok, none => (ReadAnswer.missing, disk)
    | _, _ => (ReadAnswer.failed, disk)
  | .write path content =>
    match outcome with
    | .ok => (true, update disk path (some content))
    | .failed => (false, disk)
    | .torn length =>
      (false, update disk path (some (shorten length content)))
  | .rename source target =>
    match outcome, disk source with
    | .ok, some content =>
      (true, update (update disk source none) target (some content))
    | _, _ => (false, disk)

end

namespace FileProcedure

variable {Path Content V : Type}

def readFile (path : Path) : FileProcedure Path Content (ReadAnswer Content) :=
  Procedure.request (FileOp.read path)

def writeFile (path : Path) (content : Content) :
    FileProcedure Path Content Bool :=
  Procedure.request (FileOp.write path content)

def rename (source target : Path) : FileProcedure Path Content Bool :=
  Procedure.request (FileOp.rename source target)

end FileProcedure

/-! ## Rules for the statements -/

def AgreeExcept {Path Content : Type} (paths : List Path)
    (before after : Disk Path Content) : Prop :=
  ∀ path, path ∉ paths → after path = before path

namespace AgreeExcept

variable {Path Content : Type} {paths : List Path} {old new : Disk Path Content}

@[refl]
theorem refl : AgreeExcept paths old old :=
  fun _ _ => rfl

theorem update [DecidableEq Path] (eq : AgreeExcept paths old new)
    {path : Path} (has : path ∈ paths) (t : Option Content) :
    AgreeExcept paths old (update new path t) := by
  intro alt unlisted
  have ne : alt ≠ path := by
    intro same
    exact unlisted (same ▸ has)
  rw [update_of_ne ne]
  exact eq alt unlisted

end AgreeExcept

def FileOp.Touches {Path Content : Type} (paths : List Path) : FileOp Path Content → Prop
  | .read _ => True
  | .write path _ => path ∈ paths
  | .rename source target => source ∈ paths ∧ target ∈ paths

theorem AgreeExcept.perform {Path Content : Type} [DecidableEq Path]
    {trim : Nat → Content → Content} {paths : List Path}
    {old new : Disk Path Content} {op : FileOp Path Content}
    (eq : AgreeExcept paths old new) (touches : op.Touches paths) (out : Outcome) :
    AgreeExcept paths old (op.perform trim out new).2 := by
  cases op with
  | read path =>
    simp only [FileOp.perform]
    split <;> exact eq
  | write path t =>
    cases out with
    | failed => exact eq
    | ok | torn length => exact eq.update touches _
  | rename src tgt =>
    simp only [FileOp.perform]
    split
    · exact (eq.update touches.1 _).update touches.2 _
    · exact eq

namespace FileProcedure

open Procedure

variable {Path Content V : Type} [DecidableEq Path]
  {trim : Nat → Content → Content} {held : Disk Path Content → Prop}
  {ends : V → Disk Path Content → Prop} {disk : Disk Path Content}
variable {paths : List Path}

theorem keeps_agree {init : Disk Path Content} {p : FileProcedure Path Content V} {val : V → Prop}
    (sends : p.Issues (FileOp.Touches paths) val) (eq : AgreeExcept paths init disk) :
    p.Keeps (FileOp.perform trim) (AgreeExcept paths init) (fun last _ => val last) disk := by
  induction p generalizing disk with
  | done last => exact ⟨eq, sends⟩
  | issue s rest ih =>
    refine ⟨eq, ?_⟩
    intro out
    exact ih _ (sends.2 _) (eq.perform sends.1 out)

theorem cut_agrees {p : FileProcedure Path Content V} {val : V → Prop}
    (out : p.Issues (FileOp.Touches paths) val)
    (outcomes : List Outcome) (disk : Disk Path Content) : AgreeExcept paths disk
      (p.cut (FileOp.perform trim) outcomes disk).2 :=
  (cut_keeps (keeps_agree out .refl) outcomes).1

theorem perform_read (out : Outcome) (disk : Disk Path Content) (path : Path) :
    (FileOp.perform trim out disk (.read path)).2 = disk := by
  simp only [FileOp.perform]
  split <;> rfl

end FileProcedure

end Harbor.Library
