import JoinOrder.Proofs.Optimize
/-!
# The text of a plan committed

A plan is explained by following the links of the operands, and not from the plan itself: whoever is linked
is shown, with the access committed to the operand, and a chain that comes back to itself would not end. So
what is shown agrees with the plan only as far as the commitment does. After a run that succeeds it does,
whatever was linked before: the chain visits the operands in the order of the plan and ends after the last
one. Each operand gets one line, at the depth of its position, with the access that the plan has for this
position.
-/

namespace JoinOrder

variable {σ ρ : Type}

/-! ## Following a chain -/

namespace Chain

variable {operands : List Operand} {id : ℕ} {order : List ℕ}

/-- **A chain that ends is shown operand by operand**, by any bound that lets it end. -/
theorem exists_lines_of_visits (h : Visits operands id order) (depth : ℕ) :
    ∃ lines : List String, lines.length = order.length ∧
      (∀ pos id o, order[pos]? = some id → operands[id]? = some o →
        lines[pos]? = some (line (depth + pos) o)) ∧
      ∀ more ≥ order.length, textFrom operands more depth id = .ok (String.join lines) := by
  induction h generalizing depth with
  | @last id o here innermost =>
    refine ⟨[line depth o], rfl, fun pos id' o' hid' ho' ↦ ?_, fun more hmore ↦ ?_⟩
    · obtain ⟨rfl, rfl⟩ : pos = 0 ∧ id = id' := by
        cases pos with
        | zero => exact ⟨rfl, Option.some.inj hid'⟩
        | succ pos => cases hid'
      obtain rfl : o = o' := Option.some.inj (here.symm.trans ho')
      rfl
    · obtain ⟨more, rfl⟩ : ∃ m, more = m + 1 := Nat.exists_eq_add_of_le' hmore
      simp only [textFrom, here, innermost]
      rw [String.join_cons, String.join_nil, String.append_empty]
  | @next id inner o rest here link further ih =>
    obtain ⟨lines, hlength, hlines, htext⟩ := ih (depth + 1)
    refine ⟨line depth o :: lines, by rw [List.length_cons, hlength, List.length_cons],
      fun pos id' o' hid' ho' ↦ ?_, fun more hmore ↦ ?_⟩
    · cases pos with
      | zero =>
        obtain rfl : id = id' := Option.some.inj hid'
        obtain rfl : o = o' := Option.some.inj (here.symm.trans ho')
        rfl
      | succ pos =>
        rw [List.getElem?_cons_succ] at hid' ⊢
        rw [hlines pos id' o' hid' ho', Nat.add_right_comm, Nat.add_assoc]
    · obtain ⟨more, rfl⟩ : ∃ m, more = m + 1 :=
        Nat.exists_eq_add_of_le' (Nat.le_of_add_left_le hmore)
      have hrest : textFrom operands more (depth + 1) inner = .ok (String.join lines) :=
        htext more (Nat.le_of_succ_le_succ hmore)
      simp only [textFrom, here, link, hrest]
      rw [String.join_cons]
      rfl

end Chain

/-! ## The lines of a plan -/

/-- The line of an operand at a position of a plan: behind a branch mark, further in by three blanks for each
position between it and the first, and with its access in brackets if the plan has one. -/
def Plan.line (plan : Plan) (pos : ℕ) (o : Operand) : String :=
  (if pos = 0 then "" else String.ofList (List.replicate (3 * (pos - 1)) ' ') ++ "└─ ") ++ o.text ++
    (match plan.access[pos]? with
      | some access => " [" ++ access.text ++ "]"
      | none => "") ++ "\n"

theorem Operand.text_eq_of_source_eq {o o' : Operand} (h : o.source = o'.source) : o.text = o'.text := by
  obtain ⟨htable, halias, -⟩ : o.table = o'.table ∧ o.alias? = o'.alias? ∧ o.condition? = o'.condition? := by
    simpa [source] using h
  rw [text, text, names, names, htable, halias]

theorem Plan.chainLine_eq {plan : Plan} {pos : ℕ} {o o' : Operand} (hsource : o'.source = o.source)
    (haccess : o'.access? = plan.access[pos]?) : Chain.line pos o' = plan.line pos o := by
  have hindent : Chain.indent pos =
      if pos = 0 then "" else String.ofList (List.replicate (3 * (pos - 1)) ' ') ++ "└─ " := by
    cases pos <;> rfl
  rw [Chain.line, Chain.label, line, hindent, haccess, Operand.text_eq_of_source_eq hsource]
  cases plan.access[pos]? with
  | some access => simp only [String.append_assoc]
  | none => rw [String.append_empty]

namespace Optimizer

variable [RandomSource ρ] {oracles : Oracles σ} {parseOnly isSelect : Bool} {o : Optimizer} {world : σ}
  {out : Outcome σ} {top : ℕ}

/-! ## What a run commits -/

theorem exists_commit_of_optimizeWith (hout : optimizeWith ρ oracles parseOnly isSelect o world = out)
    (hok : out.result = .ok top) :
    ∃ plan rest, plan.order = top :: rest ∧ plan.order.Perm (List.range o.operands.length) ∧
      plan.access.length = (if parseOnly then 0 else o.operands.length) ∧
      out.optimizer.plan? = some plan ∧ out.optimizer.top? = some top ∧
      out.optimizer.operands = commit (o.operands.map Operand.reset) plan := by
  have hne : o.operands ≠ [] := by
    intro hnil
    rw [optimizeWith, if_pos (List.isEmpty_iff.mpr hnil)] at hout
    rw [← hout] at hok
    contradiction
  cases parseOnly with
  | true =>
    obtain ⟨first, rest, hrange, hrun⟩ := optimizeWith_parseOnly (ρ := ρ) hne
    obtain rfl : _ = out := hrun.symm.trans hout
    obtain rfl : first = top := Except.ok.inj hok
    exact ⟨_, rest, hrange, .refl _, rfl, rfl, rfl, rfl⟩
  | false =>
    have hconcludes : Concludes o out := hout ▸ concludes_optimizeWith oracles isSelect world hne
    cases hconcludes with
    | refused calls refusal clean result => exact absurd (result.symm.trans hok) (by simp)
    | @committed plan first rest stats clean complete order result optimizer =>
      obtain rfl : first = top := Except.ok.inj (result.symm.trans hok)
      rw [optimizer]
      exact ⟨plan, rest, order, complete.perm, complete.access, rfl, rfl, rfl⟩

theorem exists_committed {operands : List Operand} {id : ℕ} {operand : Operand}
    (h : operands[id]? = some operand) (plan : Plan) :
    ∃ committed, (commit (operands.map Operand.reset) plan)[id]? = some committed ∧
      committed.source = operand.source := by
  refine Option.map_eq_some_iff.mp ?_
  rw [← List.getElem?_map, map_source_commit, List.getElem?_map, h, Option.map_some]

/-- **A plan committed is explained line by line.** After a run that succeeds, whatever the operands were linked
to before, the explanation ends by any bound that leaves room for all operands, and is made up of one line for
each position of the plan: the line of the operand at this position, with the access that the plan has for it,
which is the one committed to the operand. -/
theorem explain_of_optimizeWith_eq_ok (hout : optimizeWith ρ oracles parseOnly isSelect o world = out)
    (hok : out.result = .ok top) :
    ∃ plan lines, out.optimizer.plan? = some plan ∧ plan.order.Perm (List.range o.operands.length) ∧
      plan.access.length = (if parseOnly then 0 else o.operands.length) ∧
      lines.length = o.operands.length ∧
      (∀ pos id operand, plan.order[pos]? = some id → o.operands[id]? = some operand →
        lines[pos]? = some (plan.line pos operand) ∧
          out.optimizer.operands[id]?.bind Operand.access? = plan.access[pos]?) ∧
      out.optimizer.explain = .ok (String.join lines) ∧
      ∀ more ≥ o.operands.length,
        Chain.textFrom out.optimizer.operands more 0 top = .ok (String.join lines) := by
  obtain ⟨plan, rest, horder, hperm, hlength, hplan, htop, hoperands⟩ :=
    exists_commit_of_optimizeWith hout hok
  have hcommitted : IsCommitted out.optimizer.operands plan top := by
    rw [hoperands]
    exact isCommitted_commit horder hperm
  obtain ⟨lines, hlines, hline, htext⟩ := Chain.exists_lines_of_visits hcommitted.visits 0
  have hsize : plan.order.length = o.operands.length := Arrangement.length_of_perm_range hperm
  have haccess {pos id : ℕ} (hid : plan.order[pos]? = some id) :
      out.optimizer.operands[id]?.bind Operand.access? = plan.access[pos]? := by
    rw [hcommitted.access, Plan.accessOf?_of_getElem? (Arrangement.nodup_of_perm_range hperm) hid]
  refine ⟨plan, lines, hplan, hperm, hlength, hlines.trans hsize, fun pos id operand hid hoperand ↦ ?_, ?_,
    fun more hmore ↦ htext more (hsize.trans_le hmore)⟩
  · obtain ⟨committed, hhere, hsource⟩ := exists_committed hoperand plan
    rw [← hoperands] at hhere
    refine ⟨?_, haccess hid⟩
    have hcommit := haccess hid
    rw [hhere, Option.bind_some] at hcommit
    rw [hline pos id committed hid hhere, Nat.zero_add, Plan.chainLine_eq hsource hcommit]
  · have hbound : plan.order.length ≤ out.optimizer.operands.length + 1 := by
      rw [hoperands, length_commit, hsize]
      exact Nat.le_succ _
    rw [explain, htop]
    exact htext _ hbound

/-- The two operands were linked to each other, and a chain through them had no end. -/
theorem explain_crossLinked :
    let out := optimizeWith ChaCha (failingAt 4) false true crossLinked []
    Chain.text crossLinked.operands 0 = .error .endlessChain ∧
      out.result = .ok 0 ∧ out.optimizer.explain = .ok "a [full scan]\n└─ b [full scan]\n" := by
  intro out
  have hok : out.result = .ok 0 := rfl
  obtain ⟨plan, lines, hplan, -, -, hlength, hline, htext, -⟩ := explain_of_optimizeWith_eq_ok rfl hok
  have hfound : out.optimizer.plan?.map (fun plan ↦ (plan.order, plan.access)) =
      some ([0, 1], [.fullScan, .fullScan]) := by decide +kernel
  rw [hplan, Option.map_some, Option.some.injEq, Prod.mk.injEq] at hfound
  obtain ⟨horder, haccess⟩ := hfound
  obtain ⟨first, second, rfl⟩ := List.length_eq_two.mp hlength
  have hfirst := (hline 0 0 _ (by rw [horder]; rfl) rfl).1
  have hsecond := (hline 1 1 _ (by rw [horder]; rfl) rfl).1
  obtain rfl := Option.some.inj hfirst
  obtain rfl := Option.some.inj hsecond
  refine ⟨rfl, hok, htext.trans (congrArg Except.ok ?_)⟩
  unfold Plan.line
  rw [haccess]
  decide +kernel

end Optimizer

end JoinOrder
