import JoinOrder.Optimizer
import Mathlib.Data.List.Nodup
/-!
# Commitment

A plan committed to operands can be read back in three ways: from the plan itself, by following the
links from the outermost operand, and operand by operand. They agree if the order names every operand
once and the operands had nothing committed to them before.

Both conditions are needed. An operand named twice would have its first link overwritten, and the chain
would skip what stands between; an old link at the last operand of the order would lead on from there.
-/

namespace JoinOrder

/-- What the query says of an operand, whatever is committed to it. -/
def Operand.source (o : Operand) : String × Option String × Option Condition :=
  (o.table, o.alias?, o.condition?)

/-! ## Following links -/

/-- The operands met on the way from one of them along the links, up to one without a link. -/
inductive Visits (operands : List Operand) : ℕ → List ℕ → Prop
  | last {id : ℕ} {o : Operand} (here : operands[id]? = some o) (innermost : o.inner? = none) :
      Visits operands id [id]
  | next {id inner : ℕ} {o : Operand} {rest : List ℕ} (here : operands[id]? = some o)
      (link : o.inner? = some inner) (further : Visits operands inner rest) :
      Visits operands id (id :: rest)

theorem Visits.congr {operands operands' : List Operand} {id : ℕ} {order : List ℕ}
    (h : Visits operands id order) (hinner : operands'.map Operand.inner? = operands.map Operand.inner?) :
    Visits operands' id order := by
  have hget : ∀ {id : ℕ} {o : Operand}, operands[id]? = some o →
      ∃ o', operands'[id]? = some o' ∧ o'.inner? = o.inner? := by
    intro id o ho
    have hid : operands'[id]?.map Operand.inner? = some o.inner? := by
      rw [← List.getElem?_map, hinner, List.getElem?_map, ho, Option.map_some]
    exact Option.map_eq_some_iff.mp hid
  induction h with
  | last here innermost =>
    obtain ⟨o', ho', hsame⟩ := hget here
    exact .last ho' (hsame.trans innermost)
  | next here link further ih =>
    obtain ⟨o', ho', hsame⟩ := hget here
    exact .next ho' (hsame.trans link) ih

/-! ## Looking up an access -/

namespace Plan

variable {order : List ℕ} {cost? : Option Cost} {access : List Access} {choice : Access} {id : ℕ}

theorem accessOf?_nil : accessOf? ⟨order, cost?, []⟩ id = none := by
  cases h : order.idxOf? id <;> simp [accessOf?, h]

theorem accessOf?_cons_self : accessOf? ⟨id :: order, cost?, choice :: access⟩ id = some choice := by
  simp [accessOf?, List.idxOf?_cons]

theorem accessOf?_cons_of_ne {a : ℕ} (h : a ≠ id) :
    accessOf? ⟨a :: order, cost?, choice :: access⟩ id = accessOf? ⟨order, cost?, access⟩ id := by
  cases hidx : order.idxOf? id <;> simp [accessOf?, List.idxOf?_cons, h, hidx]

theorem mem_of_accessOf?_eq_some (h : accessOf? ⟨order, cost?, access⟩ id = some choice) :
    id ∈ order := by
  obtain ⟨pos, hpos, -⟩ := Option.bind_eq_some_iff.mp h
  exact List.isSome_idxOf?.mp (Option.isSome_of_eq_some hpos)

theorem accessOf?_of_getElem? {pos : ℕ} (hnodup : order.Nodup) (hid : order[pos]? = some id) :
    accessOf? ⟨order, cost?, access⟩ id = access[pos]? := by
  obtain ⟨hpos, hhere⟩ := List.getElem?_eq_some_iff.mp hid
  have hidx : order.idxOf? id = some pos := by
    refine List.idxOf?_eq_some_iff.mpr ⟨hpos, hhere, fun earlier hearlier hsame ↦ ?_⟩
    exact Nat.ne_of_lt hearlier ((hnodup.getElem_inj_iff).mp (hsame.trans hhere.symm))
  rw [accessOf?, hidx, Option.bind_some]

theorem isSome_accessOf? (hid : id ∈ order) (hlength : access.length = order.length) :
    (accessOf? ⟨order, cost?, access⟩ id).isSome = true := by
  obtain ⟨pos, hpos⟩ := Option.isSome_iff_exists.mp (List.isSome_idxOf?.mpr hid)
  obtain ⟨hlt, -⟩ := List.idxOf?_eq_some_iff.mp hpos
  have hlt : pos < access.length := hlength ▸ hlt
  simp [accessOf?, hpos, hlt]

end Plan

namespace Optimizer

variable {operands : List Operand} {order : List ℕ} {id : ℕ}

/-! ## Frames -/

private theorem map_modify_of_comp {α β : Type} {f : α → α} {g : α → β} (h : ∀ a, g (f a) = g a)
    (l : List α) (i : ℕ) : (l.modify i f).map g = l.map g := by
  refine List.ext_getElem? fun j ↦ ?_
  rw [List.getElem?_map, List.getElem?_map]
  by_cases hij : i = j
  · rw [hij, List.getElem?_modify_eq, Option.map_eq_map, Option.map_map]
    exact congrArg (Option.map · l[j]?) (funext h)
  · rw [List.getElem?_modify_ne _ _ hij]

theorem link_cons_cons (operands : List Operand) (outer inner : ℕ) (rest : List ℕ) :
    link operands (outer :: inner :: rest) =
      link (operands.modify outer fun o ↦ { o with inner? := some inner }) (inner :: rest) := rfl

theorem assign_cons_cons (operands : List Operand) (id : ℕ) (order : List ℕ) (choice : Access)
    (access : List Access) :
    assign operands (id :: order) (choice :: access) =
      assign (operands.modify id fun o ↦ { o with access? := some choice }) order access := rfl

theorem map_link {β : Type} {g : Operand → β} (h : ∀ o inner?, g { o with inner? } = g o)
    (operands : List Operand) (order : List ℕ) : (link operands order).map g = operands.map g := by
  induction order generalizing operands with
  | nil => rfl
  | cons outer rest ih =>
    cases rest with
    | nil => rfl
    | cons inner rest =>
      rw [link_cons_cons, ih]
      exact map_modify_of_comp (fun o ↦ h o (some inner)) operands outer

theorem map_assign {β : Type} {g : Operand → β} (h : ∀ o access?, g { o with access? } = g o)
    (operands : List Operand) (order : List ℕ) (access : List Access) :
    (assign operands order access).map g = operands.map g := by
  induction order generalizing operands access with
  | nil => rfl
  | cons id order ih =>
    cases access with
    | nil => rfl
    | cons choice access =>
      rw [assign_cons_cons, ih]
      exact map_modify_of_comp (fun o ↦ h o (some choice)) operands id

theorem length_link (operands : List Operand) (order : List ℕ) :
    (link operands order).length = operands.length := by
  simpa using congrArg List.length (map_link (g := Operand.source) (fun _ _ ↦ rfl) operands order)

theorem map_source_commit (operands : List Operand) (plan : Plan) :
    (commit (operands.map Operand.reset) plan).map Operand.source =
      operands.map Operand.source := by
  rw [commit, map_assign fun _ _ ↦ rfl, map_link fun _ _ ↦ rfl, List.map_map]
  rfl

theorem length_commit (operands : List Operand) (plan : Plan) :
    (commit (operands.map Operand.reset) plan).length = operands.length := by
  simpa using congrArg List.length (map_source_commit operands plan)

theorem getElem?_link_of_not_mem (h : id ∉ order) : (link operands order)[id]? = operands[id]? := by
  induction order generalizing operands with
  | nil => rfl
  | cons outer rest ih =>
    cases rest with
    | nil => rfl
    | cons inner rest =>
      rw [link_cons_cons, ih (List.not_mem_of_not_mem_cons h)]
      exact List.getElem?_modify_ne _ _ (List.ne_of_not_mem_cons h).symm

theorem getElem?_assign_of_not_mem {access : List Access} (h : id ∉ order) :
    (assign operands order access)[id]? = operands[id]? := by
  induction order generalizing operands access with
  | nil => rfl
  | cons a order ih =>
    cases access with
    | nil => rfl
    | cons choice access =>
      rw [assign_cons_cons, ih (List.not_mem_of_not_mem_cons h)]
      exact List.getElem?_modify_ne _ _ (List.ne_of_not_mem_cons h).symm

/-! ## What is committed -/

/-- **Linking makes a chain of an order** that names each operand once, over operands without links. -/
theorem visits_link {top : ℕ} {rest : List ℕ} (hnodup : (top :: rest).Nodup)
    (hfree : ∀ id ∈ top :: rest, ∃ o, operands[id]? = some o ∧ o.inner? = none) :
    Visits (link operands (top :: rest)) top (top :: rest) := by
  induction rest generalizing operands top with
  | nil =>
    obtain ⟨o, ho, hnone⟩ := hfree top List.mem_cons_self
    exact .last ho hnone
  | cons inner rest ih =>
    have htop : top ∉ inner :: rest := (List.nodup_cons.mp hnodup).1
    obtain ⟨o, ho, -⟩ := hfree top List.mem_cons_self
    rw [link_cons_cons]
    have hhere : (link (operands.modify top fun o ↦ { o with inner? := some inner })
        (inner :: rest))[top]? = some { o with inner? := some inner } := by
      rw [getElem?_link_of_not_mem htop, List.getElem?_modify_eq, ho]
      rfl
    -- the operands further in are still without links
    refine .next hhere rfl (ih (List.nodup_cons.mp hnodup).2 fun id hid ↦ ?_)
    rw [List.getElem?_modify_ne _ _ (ne_of_mem_of_not_mem hid htop).symm]
    exact hfree id (List.mem_cons_of_mem top hid)

/-- **Assigning gives each operand the access of its position**, if the order names it once. -/
theorem getElem?_assign {access : List Access} (hnodup : order.Nodup) (cost? : Option Cost) :
    (assign operands order access)[id]? =
      match Plan.accessOf? ⟨order, cost?, access⟩ id with
      | some choice => operands[id]?.map fun o ↦ { o with access? := some choice }
      | none => operands[id]? := by
  induction order generalizing operands access with
  | nil => rfl
  | cons a order ih =>
    obtain ⟨ha, hnodup⟩ := List.nodup_cons.mp hnodup
    cases access with
    | nil =>
      rw [Plan.accessOf?_nil]
      rfl
    | cons choice access =>
      rw [assign_cons_cons]
      by_cases hid : a = id
      · subst hid
        -- the rest of the order does not name the operand, so its access is not written again
        rw [Plan.accessOf?_cons_self, getElem?_assign_of_not_mem ha, List.getElem?_modify_eq]
        rfl
      · rw [Plan.accessOf?_cons_of_ne hid, ih hnodup, List.getElem?_modify_ne _ _ hid]

/-- The three views of a commitment agree: the plan, the chain of links from the outermost operand, and
the access of each operand. -/
structure IsCommitted (operands : List Operand) (plan : Plan) (top : ℕ) : Prop where
  perm : plan.order.Perm (List.range operands.length)
  head : plan.order.head? = some top
  visits : Visits operands top plan.order
  access : ∀ id, operands[id]?.bind Operand.access? = plan.accessOf? id

/-- **A plan of all operands is committed** to operands that had nothing committed to them. -/
theorem isCommitted_commit {plan : Plan} {top : ℕ} {rest : List ℕ} (horder : plan.order = top :: rest)
    (hperm : plan.order.Perm (List.range operands.length)) :
    IsCommitted (commit (operands.map Operand.reset) plan) plan top := by
  have hnodup : plan.order.Nodup := hperm.nodup_iff.mpr List.nodup_range
  have hlinked : Visits (link (operands.map Operand.reset) plan.order) top plan.order := by
    rw [horder] at hnodup hperm ⊢
    refine visits_link hnodup fun id hid ↦ ?_
    have hlt : id < operands.length := List.mem_range.mp (hperm.mem_iff.mp hid)
    exact ⟨operands[id].reset, by simp [hlt], rfl⟩
  refine ⟨(length_commit operands plan).symm ▸ hperm, by rw [horder, List.head?_cons], ?_, fun id ↦ ?_⟩
  -- the access choices are written after the links and leave them alone
  · exact hlinked.congr (map_assign (fun _ _ ↦ rfl) _ _ _)
  · have hfree : (link (operands.map Operand.reset) plan.order)[id]?.bind Operand.access? = none := by
      have haccess : (link (operands.map Operand.reset) plan.order).map Operand.access? =
          operands.map fun _ ↦ none := by
        rw [map_link fun _ _ ↦ rfl, List.map_map]
        rfl
      have hnone : ∀ o ∈ link (operands.map Operand.reset) plan.order, o.access? = none := by
        intro o ho
        have hmem : o.access? ∈ operands.map fun _ ↦ none := haccess ▸ List.mem_map_of_mem ho
        obtain ⟨_, -, hsame⟩ := List.mem_map.mp hmem
        exact hsame.symm
      exact Option.bind_eq_none_iff.mpr fun o ho ↦ hnone o (List.mem_of_getElem? ho)
    rw [commit, getElem?_assign hnodup plan.cost?]
    cases hchoice : plan.accessOf? id with
    | none => exact hfree
    | some choice =>
      have hid : id ∈ plan.order := Plan.mem_of_accessOf?_eq_some hchoice
      have hlt : id < (link (operands.map Operand.reset) plan.order).length := by
        rw [length_link, List.length_map]
        exact List.mem_range.mp (hperm.mem_iff.mp hid)
      rw [List.getElem?_eq_getElem hlt]
      rfl

end Optimizer

end JoinOrder
