import Mathlib.Data.List.Basic

/-!
# Journals

A journal lists what was done to a state, in order. `Since` says of every entry what has held since
it was made, which may depend on the entries after it.
-/

namespace Journal

variable {ε σ : Type} {Q : ε → List ε → σ → Prop}

/-- `Q` holds of every entry, with the entries after it and the state as it is now. -/
def Since (Q : ε → List ε → σ → Prop) : List ε → σ → Prop
  | [], _ => True
  | e :: es, s => Q e es s ∧ Since Q es s

theorem Since.at : ∀ {xs ys : List ε} {e : ε} {s : σ}, Since Q (xs ++ e :: ys) s → Q e ys s
  | [], _, _, _, h => h.1
  | _ :: _, _, _, _, h => Since.at h.2

theorem Since.concat {x : ε} {s s' : σ} (hx : Q x [] s') : ∀ {log : List ε}, Since Q log s →
    (∀ e ∈ log, ∀ es, Q e es s → Q e (es ++ [x]) s') → Since Q (log ++ [x]) s'
  | [], _, _ => ⟨hx, trivial⟩
  | e :: es, h, hkeep =>
    ⟨hkeep e List.mem_cons_self es h.1,
      Since.concat hx h.2 fun e' he' => hkeep e' (List.mem_cons_of_mem _ he')⟩

end Journal
