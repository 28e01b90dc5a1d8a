import Mathlib.Data.Nat.Init

namespace While

variable {S : Type}

/-- A `while` loop that is cut off after `fuel` rounds. -/
def loop (cond : S → Bool) (body : S → S) : Nat → S → Option S
  | 0, _ => none
  | fuel + 1, s => if cond s then loop cond body fuel (body s) else some s

variable {cond : S → Bool} {body : S → S} {s s' : S} {fuel : Nat}

/-- A loop whose condition never fails does not end. -/
theorem loop_eq_none (I : S → Prop) (hI : I s) (hkeep : ∀ s, I s → I (body s))
    (hcond : ∀ s, I s → cond s = true) : loop cond body fuel s = none := by
  induction fuel generalizing s with
  | zero => rfl
  | succ fuel ih =>
    rw [loop, if_pos (hcond s hI)]
    exact ih (hkeep s hI)

end While
