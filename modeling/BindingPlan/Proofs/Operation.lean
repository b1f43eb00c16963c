import Mathlib.Order.Defs.Unbundled

/-!
# Operations that may fail

An operation on a state gives a result or an error, and either way a next state: what it has done
before it fails stays done. A sequence stops at its first failure. So a relation between states that
is a preorder holds across a sequence if it holds across each step, wherever the sequence stops.

Where a later step relies on what an earlier one gave, a relation between states is not enough: then
it is said of an operation in one state what holds of its result, or of its error, and of the state
behind it.

Main results:

* `Operation.run_bind`: what a sequence answers and in which state it ends.
* `Operation.keeps_bind`: a sequence keeps a preorder between states if its steps do.
* `Operation.ensures_bind`: what a sequence ensures, from what its steps ensure.
-/

namespace BindingPlan

/-- An operation on a state that may fail. -/
abbrev Operation (ε σ α : Type) := ExceptT ε (StateM σ) α

namespace Operation

variable {ε σ α β : Type} {state next : σ}

/-! ## Sequences -/

/-- Two operations in a row: the second one runs in the state that the first one leaves. -/
theorem run_bind (x : Operation ε σ α) (f : α → Operation ε σ β) (state : σ) :
    (x >>= f).run.run state =
      match x.run.run state with
      | (.ok a, next) => (f a).run.run next
      | (.error e, next) => (.error e, next) := by
  rw [ExceptT.run_bind, StateT.run_bind]
  show (match (x.run.run state).1 with | _ => _) = _
  rcases x.run.run state with ⟨_ | a, next⟩ <;> rfl

theorem run_bind_of_run {x : Operation ε σ α} {f : α → Operation ε σ β} {a : α}
    (h : x.run.run state = (.ok a, next)) : (x >>= f).run.run state = (f a).run.run next := by
  rw [run_bind, h]

/-- An operation that does not succeed fails with an error. -/
theorem exists_error {x : Operation ε σ α} (h : (x.run.run state).1.isOk = false) :
    ∃ e, x.run.run state = (.error e, (x.run.run state).2) := by
  generalize x.run.run state = outcome at h ⊢
  obtain ⟨e | a, next⟩ := outcome
  · exact ⟨e, rfl⟩
  · cases h

/-- A sequence that succeeds, step by step. -/
theorem exists_of_run_bind {x : Operation ε σ α} {f : α → Operation ε σ β} {b : β}
    (h : (x >>= f).run.run state = (.ok b, next)) :
    ∃ a reached, x.run.run state = (.ok a, reached) ∧ (f a).run.run reached = (.ok b, next) := by
  rw [run_bind] at h
  generalize x.run.run state = outcome at h
  obtain ⟨_ | a, reached⟩ := outcome
  · cases h
  · exact ⟨a, reached, rfl, h⟩

/-- A list that is gone through fails at one of its elements, behind those in front of it. -/
theorem exists_of_run_mapM_error {f : α → Operation ε σ β} {list : List α} {e : ε}
    (h : (list.mapM f).run.run state = (.error e, next)) :
    ∃ before a after results reached, list = before ++ a :: after ∧
      (before.mapM f).run.run state = (.ok results, reached) ∧
      (f a).run.run reached = (.error e, next) := by
  induction list generalizing state with
  | nil => cases h
  | cons a list ih =>
    rw [List.mapM_cons, run_bind] at h
    generalize hfirst : (f a).run.run state = outcome at h
    obtain ⟨_ | b, reached⟩ := outcome
    · cases h
      exact ⟨[], a, list, [], state, rfl, rfl, hfirst⟩
    dsimp only at h
    rw [run_bind] at h
    generalize hrest : (list.mapM f).run.run reached = outcome at h
    obtain ⟨_ | bs, last⟩ := outcome
    · cases h
      obtain ⟨before, c, after, results, between, rfl, hbefore, hc⟩ := ih hrest
      refine ⟨a :: before, c, after, b :: results, between, rfl, ?_, hc⟩
      rw [List.mapM_cons, run_bind_of_run hfirst, run_bind_of_run hbefore]
      rfl
    · cases h

theorem run_mapM_of_error {f : α → Operation ε σ β} {before : List α} {results : List β}
    {reached : σ} {a : α} {e : ε} (hbefore : (before.mapM f).run.run state = (.ok results, reached))
    (ha : (f a).run.run reached = (.error e, next)) (after : List α) :
    ((before ++ a :: after).mapM f).run.run state = (.error e, next) := by
  rw [List.mapM_append, run_bind_of_run hbefore, List.mapM_cons, run_bind, run_bind, ha]

/-! ## Relations between states -/

/-- The relation holds between the states before and after the operation, whether it succeeds or
not. -/
def Keeps (relation : σ → σ → Prop) (operation : Operation ε σ α) : Prop :=
  ∀ state, relation state (operation.run.run state).2

variable {relation : σ → σ → Prop}

theorem Keeps.of_run {operation : Operation ε σ α} {outcome : Except ε α}
    (h : Keeps relation operation) (hrun : operation.run.run state = (outcome, next)) :
    relation state next := by
  have := h state
  rw [hrun] at this
  exact this

theorem keeps_modify {change : σ → σ} (h : ∀ state, relation state (change state)) :
    Keeps relation (modify change : Operation ε σ PUnit) :=
  h

variable [IsPreorder σ relation]

theorem keeps_pure (a : α) : Keeps relation (pure a : Operation ε σ α) :=
  fun state => refl_of relation state

theorem keeps_throw (e : ε) : Keeps relation (throw e : Operation ε σ α) :=
  fun state => refl_of relation state

theorem keeps_get : Keeps relation (get : Operation ε σ σ) :=
  fun state => refl_of relation state

/-- What follows an operation keeps the relation, seen from the state that the operation leaves. -/
theorem keeps_rest {f : α → Operation ε σ β} (hf : ∀ a, Keeps relation (f a))
    (x : Operation ε σ α) (state : σ) :
    relation (x.run.run state).2 ((x >>= f).run.run state).2 := by
  rw [run_bind]
  generalize x.run.run state = outcome
  obtain ⟨_ | a, next⟩ := outcome
  · exact refl_of relation next
  · exact hf a next

theorem keeps_bind {x : Operation ε σ α} {f : α → Operation ε σ β} (hx : Keeps relation x)
    (hf : ∀ a, Keeps relation (f a)) : Keeps relation (x >>= f) :=
  fun state => trans_of relation (hx state) (keeps_rest hf x state)

theorem keeps_mapM {f : α → Operation ε σ β} (hf : ∀ a, Keeps relation (f a)) (list : List α) :
    Keeps relation (list.mapM f) := by
  induction list with
  | nil =>
    rw [List.mapM_nil]
    exact keeps_pure _
  | cons a list ih =>
    rw [List.mapM_cons]
    exact keeps_bind (hf a) fun _ => keeps_bind ih fun _ => keeps_pure _

/-! ## Operations that succeed -/

/-- The relation holds between the states before and after the operation if it succeeds, or if it
may fail. -/
def KeepsIf (fails : Prop) (relation : σ → σ → Prop) (operation : Operation ε σ α) : Prop :=
  ∀ state, fails ∨ (operation.run.run state).1.isOk = true →
    relation state (operation.run.run state).2

variable {fails : Prop}

omit [IsPreorder σ relation] in
theorem Keeps.keepsIf {operation : Operation ε σ α} (h : Keeps relation operation) :
    KeepsIf fails relation operation :=
  fun state _ => h state

omit [IsPreorder σ relation] in
/-- A sequence that succeeds does so step by step, so its second step runs behind the first one. -/
theorem keepsIf_bind_of {x : Operation ε σ α} {f : α → Operation ε σ β} {gives : σ → σ → Prop}
    (hx : fails ∨ (x.run.run state).1.isOk = true → relation state (x.run.run state).2)
    (herror : ∀ next, relation state next → gives state next)
    (hf : ∀ a next, x.run.run state = (.ok a, next) → relation state next →
      fails ∨ ((f a).run.run next).1.isOk = true → gives state ((f a).run.run next).2)
    (hok : fails ∨ ((x >>= f).run.run state).1.isOk = true) :
    gives state ((x >>= f).run.run state).2 := by
  rw [run_bind] at hok ⊢
  generalize hrun : x.run.run state = outcome at hx hok ⊢
  obtain ⟨e | a, next⟩ := outcome
  · exact herror next (hx hok)
  · exact hf a next hrun (hx (.inr rfl)) hok

theorem keepsIf_bind {x : Operation ε σ α} {f : α → Operation ε σ β}
    (hx : KeepsIf fails relation x) (hf : ∀ a, KeepsIf fails relation (f a)) :
    KeepsIf fails relation (x >>= f) :=
  fun state => keepsIf_bind_of (hx state) (fun _ h => h) fun a next _ h hok =>
    trans_of relation h (hf a next hok)

theorem keepsIf_mapM {f : α → Operation ε σ β} (hf : ∀ a, KeepsIf fails relation (f a))
    (list : List α) : KeepsIf fails relation (list.mapM f) := by
  induction list with
  | nil =>
    rw [List.mapM_nil]
    exact (keeps_pure _).keepsIf
  | cons a list ih =>
    rw [List.mapM_cons]
    exact keepsIf_bind (hf a) fun _ => keepsIf_bind ih fun _ => (keeps_pure _).keepsIf

/-! ## Results and errors -/

/-- From the state, the operation either returns as said or throws as said. -/
def Ensures (operation : Operation ε σ α) (state : σ) (returns : α → σ → Prop)
    (throws : ε → σ → Prop) : Prop :=
  match operation.run.run state with
  | (.ok a, next) => returns a next
  | (.error e, next) => throws e next

section

omit [IsPreorder σ relation]

variable {returns wanted : α → σ → Prop} {gives : β → σ → Prop} {throws fails : ε → σ → Prop}

theorem Ensures.of_ok {operation : Operation ε σ α} {a : α}
    (h : operation.Ensures state returns throws) (hrun : operation.run.run state = (.ok a, next)) :
    returns a next := by
  unfold Ensures at h
  rw [hrun] at h
  exact h

theorem Ensures.of_error {operation : Operation ε σ α} {e : ε}
    (h : operation.Ensures state returns throws)
    (hrun : operation.run.run state = (.error e, next)) : throws e next := by
  unfold Ensures at h
  rw [hrun] at h
  exact h

theorem ensures_of_run {operation : Operation ε σ α}
    (hok : ∀ a next, operation.run.run state = (.ok a, next) → returns a next)
    (herror : ∀ e next, operation.run.run state = (.error e, next) → throws e next) :
    operation.Ensures state returns throws := by
  unfold Ensures
  split
  · next hrun => exact hok _ _ hrun
  · next hrun => exact herror _ _ hrun

theorem Ensures.imp {operation : Operation ε σ α} (h : operation.Ensures state returns throws)
    (hok : ∀ a next, returns a next → wanted a next)
    (herror : ∀ e next, throws e next → fails e next) : operation.Ensures state wanted fails :=
  ensures_of_run (fun a next hrun => hok a next (h.of_ok hrun))
    fun e next hrun => herror e next (h.of_error hrun)

theorem ensures_pure {a : α} (h : returns a state) :
    (pure a : Operation ε σ α).Ensures state returns throws :=
  h

theorem ensures_throw {e : ε} (h : throws e state) :
    (throw e : Operation ε σ α).Ensures state returns throws :=
  h

theorem ensures_get {returns : σ → σ → Prop} (h : returns state state) :
    (get : Operation ε σ σ).Ensures state returns throws :=
  h

theorem ensures_modify {returns : PUnit → σ → Prop} {change : σ → σ}
    (h : returns ⟨⟩ (change state)) :
    (modify change : Operation ε σ PUnit).Ensures state returns throws :=
  h

theorem ensures_set {returns : PUnit → σ → Prop} (h : returns ⟨⟩ next) :
    (set next : Operation ε σ PUnit).Ensures state returns throws :=
  h

/-- Reading the state changes nothing. -/
theorem ensures_get_bind {f : σ → Operation ε σ β} (h : (f state).Ensures state gives throws) :
    (get >>= f).Ensures state gives throws := by
  unfold Ensures at h ⊢
  rw [run_bind]
  exact h

/-- A sequence ensures what its second step ensures wherever the first one may lead. -/
theorem ensures_bind {x : Operation ε σ α} {f : α → Operation ε σ β}
    (hx : x.Ensures state returns throws)
    (hf : ∀ a next, returns a next → (f a).Ensures next gives throws) :
    (x >>= f).Ensures state gives throws := by
  unfold Ensures at hx ⊢
  rw [run_bind]
  generalize x.run.run state = outcome at hx
  obtain ⟨_ | a, next⟩ := outcome
  · exact hx
  · exact hf a next hx

end

end Operation
end BindingPlan
