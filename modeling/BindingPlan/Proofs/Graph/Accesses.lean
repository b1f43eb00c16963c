import BindingPlan.Proofs.Graph.Settling

/-!
# Settling an access

On a graph that is open, settling the type of an access either fails at the look-up of its member,
and has changed nothing; or the receiver is moved if the member is static, and then the member is
noted. If the member holds a wrapper, the access moves on to the node that reads the wrapper, and
the member that gives the value of the wrapper is noted. A wrapper without such a member is found
out about when the links have moved.

Main results:

* `Graph.Moves`, `Graph.Notes`: what an access with a member does to the graph.
* `GraphM.settleField_cases`, `GraphM.settleCall_cases`: that and nothing else is done.
-/

namespace BindingPlan
namespace Graph

open GraphM

variable {graph next : Graph} {id : Nat} {member value : Member} {type : ClassType}
  {isStatic : Bool}

/-- The receiver of an access to a member stays, or it moves to the class if the member is static
and was not looked for on a class. -/
inductive Moves (id : Nat) (member : Member) (type : ClassType) (isStatic : Bool) (graph : Graph) :
    Graph → Prop where
  | stays (h : (member.isStatic && !isStatic) = false) : Moves id member type isStatic graph graph
  | moves {based : Graph} {ref : Nat} (h : (member.isStatic && !isStatic) = true)
      (imports : Imports type graph based)
      (found : based.find? (Kind.classKey type.name) = some ref) :
      Moves id member type isStatic graph (based.replaceChild id 0 ref)

/-- The member of an access is noted, or that of the wrapper that it holds. -/
inductive Notes (classes : ClassRegistry) (id : Nat) (name : String) (member : Member)
    (graph : Graph) : Member → Graph → Prop where
  | itself (plain : member.type.observableField = false) :
      Notes classes id name member graph member
        (graph.modify id fun node => { node with member := some member })
  | value {receiver inner : Nat} {read : Graph} {value : Member}
      (wraps : member.type.observableField = true)
      (hasReceiver : (graph.node id).children[0]? = some receiver)
      (unwraps : Unwraps member (graph.node id).span name receiver graph inner read)
      (get : classes.findMember member.type "get" false = .ok value) :
      Notes classes id name member graph value
        ((read.replaceChild id 0 inner).modify id fun node => { node with member := some value })

theorem isSealed_push (graph : Graph) (node : Node) :
    (graph.push node).isSealed = graph.isSealed := by
  have h (children : List Nat) (parent : Nat) (graph : Graph) :
      (children.foldl (fun graph child => graph.modify child (.addParent parent)) graph).sealed? =
        graph.sealed? := by
    induction children generalizing graph with
    | nil => rfl
    | cons child children ih => rw [List.foldl_cons, ih]; rfl
  exact congrArg Option.isSome (h node.children graph.size graph)

theorem isSealed_replaceChild (graph : Graph) (parent position child : Nat) :
    (graph.replaceChild parent position child).isSealed = graph.isSealed := by
  obtain ⟨old, hold, hne⟩ | h := graph.replaceChild_cases parent position child
  · rw [replaceChild_of_getElem? hold hne]
    show (graph.relinked parent old _).isSealed = graph.isSealed
    unfold relinked
    dsimp only
    split <;> rfl
  · rw [h]


theorem Moves.isSealed (h : Moves id member type isStatic graph next) :
    next.isSealed = graph.isSealed := by
  cases h with
  | stays => rfl
  | moves _ imports =>
    rw [isSealed_replaceChild]
    cases imports with
    | stays => rfl
    | adds => exact isSealed_push _ _

/-- The first child stays, or it is the class. -/
theorem Moves.getElem? {receiver : Nat} (h : Moves id member type isStatic graph next)
    (hreceiver : (graph.node id).children[0]? = some receiver) :
    ∃ moved, (next.node id).children[0]? = some moved ∧
      ((member.isStatic && !isStatic) = false ∧ moved = receiver ∨
        (member.isStatic && !isStatic) = true ∧
          next.find? (Kind.classKey type.name) = some moved) := by
  cases h with
  | stays h => exact ⟨receiver, hreceiver, .inl ⟨h, rfl⟩⟩
  | @moves based ref h imports found =>
    refine ⟨ref, ?_, .inr ⟨h, ?_⟩⟩
    · have hbased : ∃ old, (based.node id).children[0]? = some old := by
        cases imports with
        | stays => exact ⟨receiver, hreceiver⟩
        | adds shortName importTable =>
          have hid := lt_size_of_children (List.mem_of_getElem? hreceiver)
          have hchildren : ((({ graph with imports := importTable } : Graph).push
              (classNode shortName type)).node id).children = (graph.node id).children :=
            children_push hid
          exact ⟨receiver, by rw [hchildren, hreceiver]⟩
      obtain ⟨old, hold⟩ := hbased
      rw [children_replaceChild, if_pos rfl, List.getElem?_set_self]
      exact (List.getElem?_eq_some_iff.mp hold).1
    · simpa [find?_eq_some_iff] using found

end Graph

namespace GraphM

open BindingPlan.Graph Operation

variable {graph : Graph} {id receiver : Nat}

theorem moves_moveToClass (hopen : graph.isSealed = false) (id : Nat) (member : Member)
    (type : ClassType) (isStatic : Bool) :
    ∃ moved, Moves id member type isStatic graph moved ∧
      (moveToClass id member type isStatic).run.run graph = (.ok ⟨⟩, moved) := by
  obtain ⟨hstays, h⟩ | ⟨hmoves, ⟨hsealed, -⟩ | ⟨based, ref, himports, hfound, h⟩⟩ :=
    moveToClass_cases id member type isStatic graph
  · exact ⟨graph, .stays hstays, h⟩
  · cases hopen.symm.trans hsealed
  · exact ⟨_, .moves hmoves himports hfound, h⟩

/-- Settling the type of a field access on an open graph, case by case. -/
theorem settleField_cases (classes : ClassRegistry) (name : String) (hopen : graph.isSealed = false)
    (hreceiver : (graph.node id).children[0]? = some receiver) (type : ClassType) :
    let isStatic := (graph.node receiver).kind.isClassRef
    (∃ cause, classes.findMember type name isStatic = .error cause ∧
      (settleField classes id name receiver type).run.run graph =
        (.error (graph.resolutionError id cause), graph)) ∨
    ∃ member moved, classes.findMember type name isStatic = .ok member ∧
      Moves id member type isStatic graph moved ∧
      ((∃ value next, Notes classes id name member moved value next ∧
        (settleField classes id name receiver type).run.run graph = (.ok value.type, next)) ∨
      member.type.observableField = true ∧
        ∃ cause e next, classes.findMember member.type "get" false = .error cause ∧
          (settleField classes id name receiver type).run.run graph = (.error e, next)) := by
  intro isStatic
  have hrun : (settleField classes id name receiver type).run.run graph = (do
      let member ← lookup id (classes.findMember type name isStatic)
      moveToClass id member type isStatic
      if member.type.observableField then splitWrapper classes id name member
      else
        modifyNode id fun node => { node with member := some member }
        return member.type : GraphM ClassType).run.run graph := rfl
  rw [hrun]
  cases hmember : classes.findMember type name isStatic with
  | error cause => exact .inl ⟨cause, rfl, rfl⟩
  | ok member =>
    obtain ⟨moved, hmoves, hmove⟩ := moves_moveToClass hopen id member type isStatic
    refine .inr ⟨member, moved, rfl, hmoves, ?_⟩
    have hrest : (do
        let member ← lookup id (.ok member)
        moveToClass id member type isStatic
        if member.type.observableField then splitWrapper classes id name member
        else
          modifyNode id fun node => { node with member := some member }
          return member.type : GraphM ClassType).run.run graph =
        (if member.type.observableField then splitWrapper classes id name member
        else do
          modifyNode id fun node => { node with member := some member }
          return member.type : GraphM ClassType).run.run moved :=
      run_bind_of_run hmove
    rw [hrest]
    cases hwraps : member.type.observableField with
    | false => exact .inl ⟨member, _, .itself hwraps, rfl⟩
    | true =>
      rw [if_pos rfl]
      obtain ⟨receiver', hreceiver', -⟩ := hmoves.getElem? hreceiver
      obtain ⟨hsealed, -⟩ | ⟨inner, read, hunwraps, ⟨value, hvalue, h⟩ | ⟨cause, e, hvalue, h⟩⟩ :=
        splitWrapper_cases classes name member hreceiver'
      · rw [hmoves.isSealed, hopen] at hsealed
        cases hsealed
      · exact .inl ⟨value, _, .value hwraps hreceiver' hunwraps hvalue, h⟩
      · exact .inr ⟨rfl, cause, e, _, hvalue, h⟩

/-- Settling the type of a call on an open graph, case by case. -/
theorem settleCall_cases (classes : ClassRegistry) (id : Nat) (name : String)
    (hopen : graph.isSealed = false) (target : Nat) (type : ClassType) (args : List ClassType) :
    let isStatic := (graph.node target).kind.isClassRef
    (∃ cause, classes.findMethod type name args isStatic = .error cause ∧
      (settleCall classes id name target type args).run.run graph =
        (.error (graph.resolutionError id cause), graph)) ∨
    ∃ member moved, classes.findMethod type name args isStatic = .ok member ∧
      Moves id member type isStatic graph moved ∧
      (settleCall classes id name target type args).run.run graph =
        (.ok member.type, moved.modify id fun node => { node with member := some member }) := by
  intro isStatic
  have hrun : (settleCall classes id name target type args).run.run graph = (do
      let member ← lookup id (classes.findMethod type name args isStatic)
      moveToClass id member type isStatic
      modifyNode id fun node => { node with member := some member }
      return member.type : GraphM ClassType).run.run graph := rfl
  rw [hrun]
  cases hmember : classes.findMethod type name args isStatic with
  | error cause => exact .inl ⟨cause, rfl, rfl⟩
  | ok member =>
    obtain ⟨moved, hmoves, hmove⟩ := moves_moveToClass hopen id member type isStatic
    exact .inr ⟨member, moved, rfl, hmoves, run_bind_of_run hmove⟩

end GraphM
end BindingPlan
