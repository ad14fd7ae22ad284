import Downhill.Proofs.Run.Direction
import Downhill.Proofs.Search.Backtracking

/-! # Trajectories

The views of a run tell where it went. Each view names its iteration and its point; the point after
it is the one that its step and its direction lead to. Everything a view holds follows from the
answers of the objective and from the shift carried through the views before it.
-/

namespace Downhill

variable {α : Type} [Scalar α]

/-- The gradient at `x` is `gradient`, and it does not meet the threshold. -/
structure Unsettled (f : Answers α) (threshold : α) (x gradient : Vec α) : Prop where
  gradient_eq : f.gradient x = .ok gradient
  finite : Scalar.isFinite gradient.normSq = true
  above : ¬ gradient.normSq ≤ threshold

/-! ## Points -/

/-- The point that a list of views leads to from `x0`. -/
def reached (x0 : Vec α) (views : List (View α)) : Except Fault (Vec α) :=
  match views.getLast? with
  | none => .ok x0
  | some view => view.x.move view.step view.direction

@[simp] theorem reached_nil (x0 : Vec α) : reached x0 [] = .ok x0 := rfl

@[simp] theorem reached_append_singleton (x0 : Vec α) (views : List (View α)) (view : View α) :
    reached x0 (views ++ [view]) = view.x.move view.step view.direction := by
  simp [reached]

theorem reached_take_succ (x0 : Vec α) {views : List (View α)} {i : Nat} {view : View α}
    (h : views[i]? = some view) :
    reached x0 (views.take (i + 1)) = view.x.move view.step view.direction := by
  rw [List.take_add_one, h, Option.toList_some, reached_append_singleton]

/-! ## Views -/

variable [Kernel α]

/-- A view holds what the answers make of its point, when `carried` is the shift so far. -/
structure Shown (f : Answers α) (rule : Rule α) (attempts : Nat) (config : SolverConfig α)
    (carried : Option α) (view : View α) : Prop where
  unsettled : Unsettled f config.threshold view.x view.gradient
  directed : (rule.answer attempts f carried view.x view.gradient view.iteration).1 =
    .ok ⟨view.direction, view.regularisation⟩
  searched : ∃ outcome, (f.search view.x view.direction view.gradient config.lineSearch).1 =
    .ok outcome ∧ outcome.step = view.step ∧ outcome.status = view.status

/-- The shift carried after a list of views, if `inherited` was carried before them. -/
def carriedAfter (f : Answers α) (rule : Rule α) (attempts : Nat) (inherited : Option α)
    (views : List (View α)) : Option α :=
  views.foldl (fun carried (view : View α) =>
    (rule.answer attempts f carried view.x view.gradient view.iteration).2.carried) inherited

theorem carriedAfter_append_singleton (f : Answers α) (rule : Rule α) (attempts : Nat)
    (inherited : Option α) (views : List (View α)) (view : View α) :
    carriedAfter f rule attempts inherited (views ++ [view]) =
      (rule.answer attempts f (carriedAfter f rule attempts inherited views) view.x view.gradient
        view.iteration).2.carried := by
  simp [carriedAfter]

/-- The views number the iterations from zero on, and each stands where those before it lead. -/
structure Chronicle (f : Answers α) (rule : Rule α) (attempts : Nat) (config : SolverConfig α)
    (x0 : Vec α) (inherited : Option α) (views : List (View α)) : Prop where
  numbered : ∀ i (view : View α), views[i]? = some view → view.iteration = i
  stands : ∀ i (view : View α), views[i]? = some view → reached x0 (views.take i) = .ok view.x
  shown : ∀ i (view : View α), views[i]? = some view →
    Shown f rule attempts config (carriedAfter f rule attempts inherited (views.take i)) view

namespace Chronicle

variable {f : Answers α} {rule : Rule α} {attempts : Nat} {config : SolverConfig α}
  {x0 : Vec α} {inherited : Option α} {views : List (View α)} {view : View α}

theorem nil : Chronicle f rule attempts config x0 inherited [] := ⟨nofun, nofun, nofun⟩

theorem snoc (h : Chronicle f rule attempts config x0 inherited views)
    (hnumber : view.iteration = views.length) (hstands : reached x0 views = .ok view.x)
    (hshown : Shown f rule attempts config (carriedAfter f rule attempts inherited views) view) :
    Chronicle f rule attempts config x0 inherited (views ++ [view]) := by
  -- A view of the longer list is one of the old ones or the new one at the end.
  have hcases : ∀ i v, (views ++ [view])[i]? = some v →
      (views[i]? = some v ∧ (views ++ [view]).take i = views.take i) ∨
        (i = views.length ∧ v = view) := by
    intro i v hv
    rcases Nat.lt_trichotomy i views.length with hi | rfl | hi
    · rw [List.getElem?_append_left hi] at hv
      exact .inl ⟨hv, List.take_append_of_le_length (Nat.le_of_lt hi)⟩
    · exact .inr ⟨rfl, by simpa using hv.symm⟩
    · rw [List.getElem?_eq_none (by simp; omega)] at hv
      contradiction
  have htake : (views ++ [view]).take views.length = views := by simp
  refine ⟨fun i v hv => ?_, fun i v hv => ?_, fun i v hv => ?_⟩
  · rcases hcases i v hv with ⟨hold, -⟩ | ⟨rfl, rfl⟩
    · exact h.numbered i v hold
    · exact hnumber
  · rcases hcases i v hv with ⟨hold, htaken⟩ | ⟨rfl, rfl⟩
    · rw [htaken]
      exact h.stands i v hold
    · rwa [htake]
  · rcases hcases i v hv with ⟨hold, htaken⟩ | ⟨rfl, rfl⟩
    · rw [htaken]
      exact h.shown i v hold
    · rwa [htake]

theorem moves (h : Chronicle f rule attempts config x0 inherited views) {i : Nat} {later : View α}
    (hview : views[i]? = some view) (hlater : views[i + 1]? = some later) :
    view.x.move view.step view.direction = .ok later.x :=
  (reached_take_succ x0 hview).symm.trans (h.stands (i + 1) later hlater)

end Chronicle

end Downhill
