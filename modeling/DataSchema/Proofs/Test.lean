import DataSchema.Check

/-!
How a test that is put together from others comes out: it fails to answer, passes or fails, and
each case follows from the cases of its parts. Tests in a row are one test and the row that
follows it, so a law about rows needs to be shown of two tests only.
-/

namespace DataSchema

/-- How a test comes out: with an answer and what is then written down, or with a failure. -/
abbrev Outcome := Except Error (Bool × Array Issue)

namespace Outcome

def andThen (r : Outcome) (t : Test) : Outcome := do
  let (ok, issues) ← r
  if ok then t issues else return (false, issues)

def orElse (r : Outcome) (t : Test) : Outcome := do
  let (ok, issues) ← r
  if ok then return (true, issues) else t issues

/-- After a failure the second test runs only if all failures are wanted, and the answer stays. -/
def also (mode : Recording) (r : Outcome) (t : Test) : Outcome := do
  let (ok, issues) ← r
  if ok then t issues
  else if mode.stopsEarly then return (false, issues)
  else return (false, (← t issues).2)

variable {e : Error} {issues : Array Issue} {t : Test} {mode : Recording}

@[simp] theorem andThen_error : andThen (.error e) t = .error e := rfl

@[simp] theorem andThen_true : andThen (.ok (true, issues)) t = t issues := rfl

@[simp] theorem andThen_false : andThen (.ok (false, issues)) t = .ok (false, issues) := rfl

@[simp] theorem orElse_error : orElse (.error e) t = .error e := rfl

@[simp] theorem orElse_true : orElse (.ok (true, issues)) t = .ok (true, issues) := rfl

@[simp] theorem orElse_false : orElse (.ok (false, issues)) t = t issues := rfl

@[simp] theorem also_error : also mode (.error e) t = .error e := rfl

@[simp] theorem also_true : also mode (.ok (true, issues)) t = t issues := rfl

theorem also_false_early (h : mode.stopsEarly = true) :
    also mode (.ok (false, issues)) t = .ok (false, issues) := by
  simp only [also, h, bind, Except.bind]
  rfl

theorem also_false_all (h : mode.stopsEarly = false) :
    also mode (.ok (false, issues)) t = (t issues).map fun r => (false, r.2) := by
  simp only [also, h, bind, Except.bind]
  cases t issues <;> rfl

end Outcome

namespace Test

/-- The second test runs after the first, unless that failed and no more failures are wanted. -/
def also (mode : Recording) (s t : Test) : Test := fun issues => Outcome.also mode (s issues) t

theorem all_cons (mode : Recording) (t : Test) (ts : List Test) :
    all mode (t :: ts) = also mode t (all mode ts) := rfl

end Test

end DataSchema
