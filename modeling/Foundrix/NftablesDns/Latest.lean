import Foundrix.Machine.Trace
import Foundrix.NftablesDns.Batch

/-!
# What updates leave in the table

For any initial chain, any updates and any batches that fail: when an update leaves exactly
its own rules and sets.

* `Initial`, `Latest`, `Unchanged`, `Updated`: the chain at first, and what an update is to
  leave.
* `Managed`, `turn_spec`: what a turn for one protocol keeps of the other one.
* `updated_iff`: the condition for an update to leave what it is to leave.
* `sets_left_behind`: two updates that leave the sets of the first one.
-/

namespace Foundrix.NftablesDns

open Effect Machine Text

/-- The chain of the configuration has the drop rule and no rule that names a dynamic set. -/
structure Initial (shown : Shown) (drop : Rule) (T : Table) : Prop where
  nodup : (T.chain.map Rule.handle).Nodup
  fresh : ∀ r ∈ T.chain, r.handle < T.nextHandle
  static : ∀ r ∈ T.chain, ∃ rule_json, r.expr = .static rule_json
  noDynamic : ∀ r ∈ T.chain, ∀ proto, mentions shown proto r = false
  drop_mem : drop ∈ T.chain
  isDrop : isDrop shown drop

/-- The rules that name a set of the protocol are the accept rules for these elements, in
front of the drop rule. -/
structure Ruled (shown : Shown) (iface : String) (drop : Rule) (elements : Elements)
    (h : String) (proto : Proto) (T : Table) : Prop where
  rules : (T.chain.filter (mentions shown proto)).map Rule.expr =
    (accepts iface proto h elements).map .accept
  placed : ∃ before after, T.chain = before ++ drop :: after ∧
    ∀ r ∈ after, mentions shown proto r = false

/-- Besides, the sets of the protocol are those with this hash, with these elements. -/
structure Latest (shown : Shown) (iface : String) (drop : Rule) (elements : Elements)
    (h : String) (proto : Proto) (T : Table) : Prop
    extends Ruled shown iface drop elements h proto T where
  sets : ∀ name, startsWith name (setPrefix proto) →
    ((T.sets name).isSome ↔ ∃ family, name = setName proto family h)
  elements : ∀ family e, e ∈ elementsOf T (setName proto family h) ↔ e ∈ elements proto family

structure Unchanged (shown : Shown) (proto : Proto) (T T' : Table) : Prop where
  rules : T'.chain.filter (mentions shown proto) = T.chain.filter (mentions shown proto)
  sets : ∀ name, startsWith name (setPrefix proto) → T'.sets name = T.sets name

/-- What an update from `T` to `T'` is to leave of a protocol. -/
def Updated (shown : Shown) (iface : String) (drop : Rule) (elements : Elements) (h : String)
    (T T' : Table) (proto : Proto) : Outcome → Prop
  | .applied _ _ _ => Latest shown iface drop elements h proto T'
  | .failed _ _ | .skipped => Unchanged shown proto T T'

/-- Where the chain is listed, the last rule that the script can take for the drop rule is the drop
rule; where it is not, the rules are those of the update already. The sets of the protocol that are
there are sets of the update, with no element that it does not have. -/
structure Fits (shown : Shown) (iface : String) (drop : Rule) (elements : Elements) (h : String)
    (proto : Proto) (listed : Bool) (T : Table) : Prop where
  rules : if listed then lastDrop shown T = some drop
    else Ruled shown iface drop elements h proto T
  sets : ∀ name, startsWith name (setPrefix proto) → (T.sets name).isSome →
    ∃ family, name = setName proto family h ∧ ∀ e ∈ elementsOf T name, e ∈ elements proto family

section Reached

variable {shown : Shown} {config : Config} {drop : Rule} {proto proto' : Proto} {h iface : String}
  {elements : Elements} {T T' : Table} {listed : Bool}

/-- What holds of the table between two turns. -/
structure Reached (shown : Shown) (drop : Rule) (T : Table) : Prop extends Managed shown T where
  drop_mem : drop ∈ T.chain
  isDrop : isDrop shown drop
  static : ∀ proto, mentions shown proto drop = false

theorem Initial.reached (h : Initial shown drop T) : Reached shown drop T where
  nodup := h.nodup
  fresh := h.fresh
  known := by
    intro r hr
    obtain ⟨rule_json, hexpr⟩ := h.static r hr
    unfold Rule.Known
    rw [hexpr]
    exact h.noDynamic r hr
  drop_mem := h.drop_mem
  isDrop := h.isDrop
  static := h.noDynamic drop h.drop_mem

theorem Rule.Known.one_proto (hshown : ShowsSet shown) {r : Rule} (hr : r.Known shown)
    (hm : mentions shown proto r = true) (hne : proto' ≠ proto) :
    mentions shown proto' r = false := by
  obtain ⟨handle, expr⟩ := r
  cases expr with
  | static text => exact hr proto'
  | accept a =>
    have hproto := (mentions_accept hshown hr handle proto).mp hm
    cases hm' : mentions shown proto' ⟨handle, .accept a⟩ with
    | false => rfl
    | true => exact absurd (((mentions_accept hshown hr handle proto').mp hm').trans hproto.symm) hne

theorem Reached.lastDrop_isSome (hT : Reached shown drop T) : (lastDrop shown T).isSome := by
  have hmem : drop ∈ T.chain.filter (NftablesDns.isDrop shown) :=
    List.mem_filter.mpr ⟨hT.drop_mem, hT.isDrop⟩
  cases hlast : lastDrop shown T with
  | some q => rfl
  | none =>
    rw [List.getLast?_eq_none_iff.mp hlast] at hmem
    cases hmem

/-! ## The rules of a protocol beside the drop rule -/

/-- The rules that name a set of the protocol, and the drop rule. -/
def view (shown : Shown) (drop : Rule) (proto : Proto) (T : Table) : List Rule :=
  T.chain.filter fun r => mentions shown proto r || r = drop

theorem filter_view (drop : Rule) : T.chain.filter (mentions shown proto) =
    (view shown drop proto T).filter (mentions shown proto) := by
  unfold view
  rw [List.filter_filter]
  apply List.filter_congr
  intro r _
  cases mentions shown proto r <;> rfl

theorem Reached.chain_nodup (hT : Reached shown drop T) : T.chain.Nodup :=
  hT.nodup.of_map

/-- The view of a chain that is split at the drop rule. -/
theorem view_split (hT : Reached shown drop T) {before after : List Rule}
    (hchain : T.chain = before ++ drop :: after) :
    view shown drop proto T = before.filter (mentions shown proto) ++
      drop :: after.filter (mentions shown proto) := by
  have hnodup := hT.chain_nodup
  rw [hchain] at hnodup
  obtain ⟨-, hdropAfter, hdisjoint⟩ := List.nodup_append.mp hnodup
  have hafter : drop ∉ after := (List.nodup_cons.mp hdropAfter).1
  have hbefore : drop ∉ before := fun hmem => hdisjoint drop hmem drop List.mem_cons_self rfl
  have hsame : ∀ {l : List Rule}, drop ∉ l →
      l.filter (fun r => mentions shown proto r || r = drop) = l.filter (mentions shown proto) := by
    intro l hl
    apply List.filter_congr
    intro r hr
    have hne : r ≠ drop := fun he => hl (he ▸ hr)
    simp [hne]
  unfold view
  rw [hchain, List.filter_append, hsame hbefore, List.filter_cons]
  simp [hsame hafter]

/-- The rules that name a set of the protocol are `news`, and stand before the drop rule, where
this is what the view says. -/
theorem ruled_iff (hT : Reached shown drop T) : Ruled shown iface drop elements h proto T ↔
    ∃ news, view shown drop proto T = news ++ [drop] ∧
      news.map Rule.expr = (accepts iface proto h elements).map .accept := by
  have hstatic := hT.static proto
  constructor
  · intro ⟨hexprs, before, after, hchain, hafter⟩
    have hnil : after.filter (mentions shown proto) = [] :=
      List.filter_eq_nil_iff.mpr fun r hr => by simp [hafter r hr]
    refine ⟨before.filter (mentions shown proto), ?_, ?_⟩
    · rw [view_split hT hchain, hnil]
    · rw [← hexprs, hchain]
      simp [hstatic, hnil]
  · intro ⟨news, hview, hexprs⟩
    obtain ⟨before, after, hchain⟩ := List.append_of_mem hT.drop_mem
    rw [view_split hT hchain] at hview
    have hnotin : ∀ l : List Rule, drop ∉ l.filter (mentions shown proto) := by
      intro l hmem
      have hm := (List.mem_filter.mp hmem).2
      rw [hstatic] at hm
      cases hm
    obtain ⟨hnews, -, hnil⟩ :=
      (List.append_cons_inj_of_notMem (hnotin before) (hnotin after)).mp hview
    refine ⟨?_, before, after, hchain, ?_⟩
    · rw [← hexprs, ← hnews, hchain]
      simp [hstatic, hnil]
    · intro r hr
      simpa using List.filter_eq_nil_iff.mp hnil r hr

/-- The two tables are the same to a protocol. -/
structure Alike (shown : Shown) (drop : Rule) (proto : Proto) (T T' : Table) : Prop where
  view : view shown drop proto T' = view shown drop proto T
  sets : ∀ name, startsWith name (setPrefix proto) → T'.sets name = T.sets name

theorem Alike.refl (T : Table) : Alike shown drop proto T T := ⟨rfl, fun _ _ => rfl⟩

theorem Alike.symm (h : Alike shown drop proto T T') : Alike shown drop proto T' T :=
  ⟨h.view.symm, fun name hname => (h.sets name hname).symm⟩

theorem Alike.elementsOf (ha : Alike shown drop proto T T') (family : Family) (h : String) :
    elementsOf T' (setName proto family h) = elementsOf T (setName proto family h) := by
  unfold NftablesDns.elementsOf
  rw [ha.sets _ (startsWith_setName proto family h)]

theorem Alike.rules (ha : Alike shown drop proto T T') :
    T'.chain.filter (mentions shown proto) = T.chain.filter (mentions shown proto) := by
  rw [filter_view drop, ha.view, ← filter_view drop]

theorem Alike.ruled (ha : Alike shown drop proto T T') (hT : Reached shown drop T)
    (hT' : Reached shown drop T') (hr : Ruled shown iface drop elements h proto T) :
    Ruled shown iface drop elements h proto T' :=
  (ruled_iff hT').mpr (ha.view ▸ (ruled_iff hT).mp hr)

theorem Alike.latest (ha : Alike shown drop proto T T') (hT : Reached shown drop T)
    (hT' : Reached shown drop T') (hl : Latest shown iface drop elements h proto T) :
    Latest shown iface drop elements h proto T' := by
  refine ⟨ha.ruled hT hT' hl.toRuled, ?_, ?_⟩
  · intro name hname
    rw [ha.sets name hname]
    exact hl.sets name hname
  · intro family e
    rw [ha.elementsOf]
    exact hl.elements family e

theorem Alike.fits (ha : Alike shown drop proto T T') (hT : Reached shown drop T)
    (hT' : Reached shown drop T') (hlast : lastDrop shown T' = lastDrop shown T)
    (hf : Fits shown iface drop elements h proto listed T) :
    Fits shown iface drop elements h proto listed T' where
  rules := by
    have hrules := hf.rules
    cases listed with
    | true => exact hlast.trans hrules
    | false => exact ha.ruled hT hT' hrules
  sets := by
    intro name hname hsome
    rw [ha.sets name hname] at hsome
    obtain ⟨family, rfl, hsub⟩ := hf.sets name hname hsome
    exact ⟨family, rfl, ha.elementsOf family h ▸ hsub⟩

theorem Alike.updated {U U' : Table} {outcome : Outcome} (ha : Alike shown drop proto T U)
    (ha' : Alike shown drop proto T' U') (hT' : Reached shown drop T')
    (hU' : Reached shown drop U')
    (hup : Updated shown iface drop elements h T T' proto outcome) :
    Updated shown iface drop elements h U U' proto outcome := by
  cases outcome with
  | applied listing v4 v6 => exact ha'.latest hT' hU' hup
  | failed | skipped =>
    constructor
    · rw [ha'.rules, ha.rules]
      exact hup.rules
    · intro name hname
      rw [ha'.sets name hname, ha.sets name hname]
      exact hup.sets name hname

/-! ## A turn -/

section Turn

variable {before after news : List Rule} {q : Rule}

theorem Applied.kept_sublist (ha : Applied shown iface proto h elements before q after news T T') :
    (before ++ q :: after).Sublist T.chain :=
  ha.kept ▸ List.filter_sublist

theorem Applied.mem_kept (ha : Applied shown iface proto h elements before q after news T T')
    {r : Rule} : r ∈ before ++ q :: after ↔ r ∈ T.chain ∧ mentions shown proto r = false := by
  rw [← ha.kept, NftablesDns.kept, List.mem_filter]
  simp

theorem Applied.mem_chain (ha : Applied shown iface proto h elements before q after news T T')
    {r : Rule} : r ∈ T'.chain ↔ r ∈ before ++ q :: after ∨ r ∈ news := by
  rw [ha.chain]
  simp only [List.mem_append]
  tauto

/-- A new rule is an accept rule of the update. -/
theorem Applied.new (ha : Applied shown iface proto h elements before q after news T T')
    (hh : IsHex h) {r : Rule} (hr : r ∈ news) :
    ∃ a, r = ⟨r.handle, .accept a⟩ ∧ a.WellNamed ∧ a.proto = proto := by
  have hexpr : r.expr ∈ (accepts iface proto h elements).map Expr.accept :=
    ha.exprs ▸ List.mem_map_of_mem hr
  obtain ⟨a, hmem, heq⟩ := List.mem_map.mp hexpr
  obtain ⟨hnamed, hproto⟩ := accepts_wellNamed hh hmem
  exact ⟨a, by rw [heq], hnamed, hproto⟩

theorem Applied.new_mentions (hshown : ShowsSet shown)
    (ha : Applied shown iface proto h elements before q after news T T') (hh : IsHex h)
    {r : Rule} (hr : r ∈ news) : mentions shown proto' r = true ↔ proto' = proto := by
  obtain ⟨a, heq, hnamed, hproto⟩ := ha.new hh hr
  rw [heq, mentions_accept hshown hnamed, hproto]

/-- A new rule was not in the chain. -/
theorem Applied.new_notMem (hT : Reached shown drop T)
    (ha : Applied shown iface proto h elements before q after news T T') {r : Rule}
    (hr : r ∈ news) : r ∉ T.chain := by
  intro hmem
  have hold := hT.fresh r hmem
  have hnew := (ha.fresh r hr).1
  omega

theorem Applied.reached (hT : Reached shown drop T)
    (ha : Applied shown iface proto h elements before q after news T T') (hh : IsHex h) :
    Reached shown drop T' where
  nodup := by
    have hkept := (ha.kept_sublist.map Rule.handle).nodup hT.nodup
    have hdisjoint : ∀ a ∈ (before ++ q :: after).map Rule.handle, ∀ b ∈ news.map Rule.handle,
        a ≠ b := by
      intro a hmem b hb
      obtain ⟨r, hr, rfl⟩ := List.mem_map.mp hmem
      obtain ⟨n, hn, rfl⟩ := List.mem_map.mp hb
      have hold := hT.fresh r (ha.kept_sublist.subset hr)
      have hnew := (ha.fresh n hn).1
      omega
    have hperm : (T'.chain.map Rule.handle).Perm
        ((before ++ q :: after).map Rule.handle ++ news.map Rule.handle) := by
      rw [ha.chain, ← List.map_append]
      apply List.Perm.map
      have hswap : (news ++ q :: after).Perm (q :: after ++ news) := List.perm_append_comm
      simpa using hswap.append_left before
    exact hperm.nodup_iff.mpr (List.nodup_append.mpr ⟨hkept, ha.nodup, hdisjoint⟩)
  fresh := by
    intro r hr
    rcases ha.mem_chain.mp hr with hr | hr
    · exact lt_of_lt_of_le (hT.fresh r (ha.kept_sublist.subset hr)) ha.nextHandle
    · exact (ha.fresh r hr).2
  known := by
    intro r hr
    rcases ha.mem_chain.mp hr with hr | hr
    · exact hT.known r (ha.kept_sublist.subset hr)
    · obtain ⟨a, heq, hnamed, -⟩ := ha.new hh hr
      rw [heq]
      exact hnamed
  drop_mem := ha.mem_chain.mpr (Or.inl (ha.mem_kept.mpr ⟨hT.drop_mem, hT.static proto⟩))
  isDrop := hT.isDrop
  static := hT.static

/-- Behind the rule taken for the drop rule none is taken for it. -/
theorem Applied.after_notDrop (hT : Reached shown drop T)
    (ha : Applied shown iface proto h elements before q after news T T') :
    isDrop shown q = true ∧ after.filter (isDrop shown) = [] := by
  obtain ⟨init, hinit⟩ := List.getLast?_eq_some_iff.mp ha.last
  have hqmem : q ∈ T.chain.filter (isDrop shown) := List.mem_of_getLast? ha.last
  have hq : isDrop shown q = true := (List.mem_filter.mp hqmem).2
  have hqment : mentions shown proto q = false :=
    (ha.mem_kept.mp (List.mem_append_right before List.mem_cons_self)).2
  have hsplit : (init.filter fun r => !mentions shown proto r) ++ [q] =
      before.filter (isDrop shown) ++ q :: after.filter (isDrop shown) := by
    have hkept : (NftablesDns.kept shown proto T).filter (isDrop shown) =
        (T.chain.filter (isDrop shown)).filter fun r => !mentions shown proto r := by
      unfold NftablesDns.kept
      rw [List.filter_filter, List.filter_filter]
      exact List.filter_congr fun r _ => Bool.and_comm _ _
    rw [ha.kept, hinit] at hkept
    simpa [List.filter_append, List.filter_cons, hq, hqment] using hkept.symm
  have hnodup := ha.kept_sublist.nodup hT.chain_nodup
  obtain ⟨-, hrest, hdisjoint⟩ := List.nodup_append.mp hnodup
  have hbefore : q ∉ before.filter (isDrop shown) := fun hmem =>
    hdisjoint q (List.mem_filter.mp hmem).1 q List.mem_cons_self rfl
  have hafter : q ∉ after.filter (isDrop shown) := fun hmem =>
    (List.nodup_cons.mp hrest).1 (List.mem_filter.mp hmem).1
  obtain ⟨-, -, hnil⟩ := (List.append_cons_inj_of_notMem hbefore hafter).mp hsplit.symm
  exact ⟨hq, hnil⟩

theorem Applied.lastDrop_eq (hT : Reached shown drop T)
    (ha : Applied shown iface proto h elements before q after news T T') :
    lastDrop shown T' = lastDrop shown T := by
  obtain ⟨hq, hnil⟩ := ha.after_notDrop hT
  rw [ha.last]
  unfold lastDrop
  rw [ha.chain, List.filter_append, List.filter_cons, hnil, if_pos hq]
  simp

/-- The rules of the other protocol stay where they are. -/
theorem Applied.view_other (hshown : ShowsSet shown) (hT : Reached shown drop T)
    (ha : Applied shown iface proto h elements before q after news T T') (hh : IsHex h)
    (hne : proto' ≠ proto) : view shown drop proto' T' = view shown drop proto' T := by
  have hnews : news.filter (fun r => mentions shown proto' r || r = drop) = [] := by
    apply List.filter_eq_nil_iff.mpr
    intro r hr
    have hdrop : r ≠ drop := fun he => ha.new_notMem hT hr (he ▸ hT.drop_mem)
    have hment := (ha.new_mentions hshown hh hr).not.mpr hne
    simp [hdrop, hment]
  have hkept : (NftablesDns.kept shown proto T).filter (fun r => mentions shown proto' r || r = drop) =
      view shown drop proto' T := by
    unfold NftablesDns.kept view
    rw [List.filter_filter]
    apply List.filter_congr
    intro r hr
    by_cases hdrop : r = drop
    · simp [hdrop, hT.static]
    · cases hm : mentions shown proto' r with
      | false => simp [hdrop]
      | true => simp [(hT.known r hr).one_proto hshown hm hne.symm]
  rw [← hkept, ha.kept]
  unfold view
  rw [ha.chain]
  simp only [List.filter_append, hnews, List.append_nil]

/-- The new rules stand before the drop rule where it is the one taken for the drop rule. -/
theorem Applied.view_own (hshown : ShowsSet shown) (hT : Reached shown drop T)
    (ha : Applied shown iface proto h elements before q after news T T') (hh : IsHex h)
    (hnews : news ≠ []) :
    (∃ rules, view shown drop proto T' = rules ++ [drop] ∧
      rules.map Rule.expr = (accepts iface proto h elements).map .accept) ↔ q = drop := by
  have hquiet : ∀ l : List Rule, (∀ r ∈ l, r ∈ before ++ q :: after) →
      l.filter (mentions shown proto) = [] := by
    intro l hl
    apply List.filter_eq_nil_iff.mpr
    intro r hr
    simp [(ha.mem_kept.mp (hl r hr)).2]
  have hloud : news.filter (mentions shown proto) = news := by
    apply List.filter_eq_self.mpr
    intro r hr
    exact (ha.new_mentions hshown hh hr).mpr rfl
  have hT' := ha.reached hT hh
  constructor
  · intro ⟨rules, hview, _⟩
    by_contra hne
    have hkept : drop ∈ before ++ q :: after := ha.mem_kept.mpr ⟨hT.drop_mem, hT.static proto⟩
    have hbefore : drop ∈ before := by
      rcases List.mem_append.mp hkept with hmem | hmem
      · exact hmem
      · rcases List.mem_cons.mp hmem with heq | hmem
        · exact absurd heq.symm hne
        · have hmem' : drop ∈ after.filter (NftablesDns.isDrop shown) :=
            List.mem_filter.mpr ⟨hmem, hT.isDrop⟩
          rw [(ha.after_notDrop hT).2] at hmem'
          cases hmem'
    -- The new rules stand behind the drop rule.
    obtain ⟨front, middle, hsplit⟩ := List.append_of_mem hbefore
    have hchain : T'.chain = front ++ drop :: (middle ++ news ++ q :: after) := by
      rw [ha.chain, hsplit]
      simp
    rw [view_split hT' hchain, List.filter_append, List.filter_append, hloud,
      hquiet front (by simp [hsplit]; tauto), hquiet middle (by simp [hsplit]; tauto),
      hquiet (q :: after) (fun r hr => List.mem_append_right _ hr)] at hview
    have hdrop : drop ∉ [] ++ news ++ [] := by
      intro hmem
      exact ha.new_notMem hT (by simpa using hmem) hT.drop_mem
    obtain ⟨-, -, hnil⟩ := (List.append_cons_inj_of_notMem List.not_mem_nil hdrop).mp hview
    exact hnews (by simpa using hnil)
  · intro heq
    subst heq
    refine ⟨news, ?_, ha.exprs⟩
    rw [view_split hT' ha.chain, List.filter_append, hloud,
      hquiet before (fun r hr => List.mem_append_left _ hr),
      hquiet after (fun r hr => List.mem_append_right _ (List.mem_cons_of_mem _ hr))]
    rfl

end Turn

/-! ## The condition -/

theorem setName_family {family family' : Family}
    (heq : setName proto family h = setName proto family' h) : family = family' := by
  cases family <;> cases family'
  · rfl
  · exact absurd heq (setName_v4_ne_v6 proto h)
  · exact absurd heq.symm (setName_v4_ne_v6 proto h)
  · rfl

/-- The sets of the protocol are those of the update where no other set was there. -/
theorem sets_iff (hs : SetsUpdated proto h elements T T') :
    ((∀ name, startsWith name (setPrefix proto) →
        ((T'.sets name).isSome ↔ ∃ family, name = setName proto family h)) ∧
      ∀ family e, e ∈ elementsOf T' (setName proto family h) ↔ e ∈ elements proto family) ↔
    ∀ name, startsWith name (setPrefix proto) → (T.sets name).isSome →
      ∃ family, name = setName proto family h ∧
        ∀ e ∈ elementsOf T name, e ∈ elements proto family := by
  constructor
  · intro ⟨hsets, helements⟩ name hname hsome
    by_cases hown : ∃ family, name = setName proto family h
    · obtain ⟨family, rfl⟩ := hown
      refine ⟨family, rfl, fun e he => ?_⟩
      exact (helements family e).mp ((hs.elements family e).mpr (Or.inl he))
    · have hsame := hs.others name fun family heq => hown ⟨family, heq⟩
      exact absurd ((hsets name hname).mp (hsame ▸ hsome)) hown
  · intro hfits
    constructor
    · intro name hname
      constructor
      · intro hsome
        by_contra hown
        have hsame := hs.others name fun family heq => hown ⟨family, heq⟩
        obtain ⟨family, heq, -⟩ := hfits name hname (hsame ▸ hsome)
        exact hown ⟨family, heq⟩
      · intro ⟨family, heq⟩
        obtain ⟨s, hs, -⟩ := hs.there family
        rw [heq, hs]
        rfl
    · intro family e
      rw [hs.elements family e]
      constructor
      · intro he
        rcases he with hold | hnew
        · have hsome : (T.sets (setName proto family h)).isSome := by
            cases hnone : T.sets (setName proto family h) with
            | some s => rfl
            | none =>
              rw [elementsOf, hnone] at hold
              cases hold
          obtain ⟨family', heq, hsub⟩ := hfits _ (startsWith_setName proto family h) hsome
          rw [setName_family heq]
          exact hsub e hold
        · exact hnew
      · exact Or.inr

theorem Applied.latest_iff {before after news : List Rule} {q : Rule} (hshown : ShowsSet shown)
    (hT : Reached shown drop T)
    (ha : Applied shown iface proto h elements before q after news T T') (hh : IsHex h)
    (hnews : news ≠ []) :
    Latest shown iface drop elements h proto T' ↔
      Fits shown iface drop elements h proto true T := by
  have hplace := (ruled_iff (ha.reached hT hh)).trans (ha.view_own hshown hT hh hnews)
  have hsets := sets_iff ha.sets
  constructor
  · intro hl
    have hq := hplace.mp hl.toRuled
    have hlast : lastDrop shown T = some drop := hq ▸ ha.last
    exact ⟨hlast, hsets.mp ⟨hl.sets, hl.elements⟩⟩
  · intro hf
    have hlast : lastDrop shown T = some drop := hf.rules
    have hq : q = drop := Option.some.inj (ha.last.symm.trans hlast)
    obtain ⟨hnames, helements⟩ := hsets.mpr hf.sets
    exact ⟨hplace.mpr hq, hnames, helements⟩

/-- Without a listing the rules stay what they are. -/
theorem Widened.latest_iff (hw : Widened proto h elements T T') :
    Latest shown iface drop elements h proto T' ↔
      Fits shown iface drop elements h proto false T := by
  have hruled : Ruled shown iface drop elements h proto T' ↔
      Ruled shown iface drop elements h proto T := by
    constructor
    · intro ⟨hrules, hplaced⟩
      exact ⟨hw.chain ▸ hrules, hw.chain ▸ hplaced⟩
    · intro ⟨hrules, hplaced⟩
      exact ⟨hw.chain.symm ▸ hrules, hw.chain.symm ▸ hplaced⟩
  have hsets := sets_iff hw.sets
  constructor
  · intro hl
    exact ⟨hruled.mp hl.toRuled, hsets.mp ⟨hl.sets, hl.elements⟩⟩
  · intro hf
    obtain ⟨hnames, helements⟩ := hsets.mpr hf.sets
    exact ⟨hruled.mpr hf.rules, hnames, helements⟩

/-! ## The turns -/

/-- A batch of the protocol was applied after a listing of the chain. -/
def Turned (shown : Shown) (iface : String) (proto : Proto) (h : String) (elements : Elements)
    (T T' : Table) : Prop :=
  ∃ before q after news, news ≠ [] ∧
    Applied shown iface proto h elements before q after news T T'

/-- A batch of the protocol was applied, after a listing or without one. -/
def Batched (shown : Shown) (iface : String) (proto : Proto) (h : String) (elements : Elements)
    (listed : Bool) (T T' : Table) : Prop :=
  if listed then Turned shown iface proto h elements T T' else Widened proto h elements T T'

theorem batched_of_apply (hshown : ShowsSet shown) (hT : Reached shown drop T)
    (hne : ¬ ((elements proto .v4).isEmpty && (elements proto .v6).isEmpty))
    (happly : applyBatch (batch iface proto h elements
      (if listed then scan proto (T.listing shown) else {})) T = some T') :
    Batched shown iface proto h elements listed T T' := by
  cases listed with
  | false => exact applyBatch_unlisted happly
  | true =>
    obtain ⟨before, q, after, news, ha⟩ :=
      applyBatch_batch hshown hT.toManaged hT.lastDrop_isSome hne happly
    have hnews : news ≠ [] := by
      intro hnil
      have hexprs := ha.exprs
      rw [hnil, List.map_nil] at hexprs
      exact accepts_ne_nil hne (List.map_eq_nil_iff.mp hexprs.symm)
    exact ⟨before, q, after, news, hnews, ha⟩

theorem turn_spec (hshown : ShowsSet shown) (hT : Reached shown drop T) :
    wpOk (kernel shown)
      (fun U => U = T ∨ ∃ listed, Batched shown config.interfaceMatch proto h elements listed T U)
      (updateProto config h elements proto)
      (fun outcome U => match outcome with
        | .applied listing _ _ =>
          Batched shown config.interfaceMatch proto h elements listing.isNone T U
        | .failed _ _ | .skipped => U = T) T := by
  unfold updateProto
  split
  · exact wpOk_pure (Or.inl rfl) rfl
  · rename_i hne
    have hfound : wpOk (kernel shown)
        (fun U => U = T ∨ ∃ listed, Batched shown config.interfaceMatch proto h elements listed T U)
        (findDropHandleAndOldSets config proto)
        (fun found U => found.2 = (if found.1.isNone then scan proto (T.listing shown) else {}) ∧
          U = T) T := by
      refine wpOk_step (Or.inl rfl) ?_
      intro b U hs
      obtain ⟨hb, rfl⟩ := hs
      cases b with
      | error error => exact wpOk_pure (Or.inl rfl) ⟨rfl, rfl⟩
      | ok items =>
        obtain rfl := hb items rfl
        exact wpOk_pure (Or.inl rfl) ⟨rfl, rfl⟩
    apply wpOk_seq hfound
    intro found U _ ⟨hscan, hU⟩
    obtain ⟨listing, found⟩ := found
    obtain rfl : found = if listing.isNone then scan proto (T.listing shown) else {} := hscan
    subst hU
    refine wpOk_step (Or.inl rfl) ?_
    intro b U' hs
    cases b with
    | error error =>
      obtain rfl : U' = U := hs
      exact wpOk_pure (Or.inl rfl) rfl
    | ok _ =>
      have hbatched : Batched shown config.interfaceMatch proto h elements listing.isNone U U' :=
        batched_of_apply hshown hT hne hs
      exact wpOk_pure (Or.inr ⟨_, hbatched⟩) hbatched

/-- What a turn keeps. -/
structure Kept (shown : Shown) (drop : Rule) (proto : Proto) (T T' : Table) : Prop where
  reached : Reached shown drop T'
  last : lastDrop shown T' = lastDrop shown T
  others : ∀ proto', proto' ≠ proto → Alike shown drop proto' T T'

theorem SetsUpdated.other (hs : SetsUpdated proto h elements T T') (hh : IsHex h)
    (hne : proto' ≠ proto) {name : String} (hname : startsWith name (setPrefix proto')) :
    T'.sets name = T.sets name := by
  apply hs.others
  intro family heq
  rw [heq, not_startsWith_setName hh hne] at hname
  cases hname

theorem Turned.kept (hshown : ShowsSet shown) (hT : Reached shown drop T) (hh : IsHex h)
    (ht : Turned shown iface proto h elements T T') : Kept shown drop proto T T' := by
  obtain ⟨before, q, after, news, -, ha⟩ := ht
  refine ⟨ha.reached hT hh, ha.lastDrop_eq hT, fun proto' hne => ?_⟩
  exact ⟨ha.view_other hshown hT hh hne, fun name => ha.sets.other hh hne⟩

theorem Widened.reached (hT : Reached shown drop T) (hw : Widened proto h elements T T') :
    Reached shown drop T' where
  nodup := hw.chain.symm ▸ hT.nodup
  fresh := by
    rw [hw.chain, hw.nextHandle]
    exact hT.fresh
  known := hw.chain.symm ▸ hT.known
  drop_mem := hw.chain.symm ▸ hT.drop_mem
  isDrop := hT.isDrop
  static := hT.static

theorem Widened.lastDrop_eq (hw : Widened proto h elements T T') :
    lastDrop shown T' = lastDrop shown T := by
  rw [lastDrop, hw.chain, lastDrop]

theorem Widened.kept (hT : Reached shown drop T) (hh : IsHex h)
    (hw : Widened proto h elements T T') : Kept shown drop proto T T' := by
  refine ⟨hw.reached hT, hw.lastDrop_eq, fun proto' hne => ?_⟩
  refine ⟨?_, fun name => hw.sets.other hh hne⟩
  rw [view, hw.chain, view]

theorem Batched.kept (hshown : ShowsSet shown) (hT : Reached shown drop T) (hh : IsHex h)
    (hb : Batched shown iface proto h elements listed T T') : Kept shown drop proto T T' := by
  cases listed with
  | true => exact Turned.kept hshown hT hh hb
  | false => exact Widened.kept hT hh hb

theorem turn_kept (hshown : ShowsSet shown) (hT : Reached shown drop T) (hh : IsHex h)
    (hturn : T' = T ∨ ∃ listed, Batched shown iface proto h elements listed T T') :
    Kept shown drop proto T T' := by
  rcases hturn with rfl | ⟨listed, hb⟩
  · exact ⟨hT, rfl, fun _ _ => .refl _⟩
  · exact hb.kept hshown hT hh

/-- What a turn for one protocol is to leave is left where the condition held before. -/
theorem updated_own (hshown : ShowsSet shown) (hT : Reached shown drop T) (hh : IsHex h)
    {outcome : Outcome}
    (hturn : match outcome with
      | .applied listing _ _ => Batched shown iface proto h elements listing.isNone T T'
      | .failed _ _ | .skipped => T' = T) :
    Updated shown iface drop elements h T T' proto outcome ↔
      ∀ listing v4 v6, outcome = .applied listing v4 v6 →
        Fits shown iface drop elements h proto listing.isNone T := by
  cases outcome with
  | applied listing v4 v6 =>
    have hlatest : Latest shown iface drop elements h proto T' ↔
        Fits shown iface drop elements h proto listing.isNone T := by
      cases listing with
      | none =>
        obtain ⟨before, q, after, news, hnews, ha⟩ := hturn
        exact ha.latest_iff hshown hT hh hnews
      | some error => exact Widened.latest_iff hturn
    show Latest shown iface drop elements h proto T' ↔ _
    rw [hlatest]
    constructor
    · rintro hf _ _ _ ⟨⟩
      exact hf
    · exact fun hf => hf listing v4 v6 rfl
  | failed | skipped =>
    obtain rfl : T' = T := hturn
    exact ⟨fun _ => nofun, fun _ => ⟨rfl, fun _ _ => rfl⟩⟩

end Reached

/-! ## Updates -/

section Updates

variable {shown : Shown} {sha256 : String → String} {config : Config} {drop : Rule}
  {elements : Elements} {T T' : Table}

/-- One run of the script, complete or cut. -/
def update (shown : Shown) (sha256 : String → String) (config : Config) (T : Table)
    (elements : Elements) (T' : Table) : Prop :=
  ∃ o, Run (kernel shown) (nftUpdate sha256 config elements) T o T'

/-- The table between the two turns of a complete run. -/
theorem nftUpdate_spec (hshown : ShowsSet shown) (hsha : HexDigest sha256)
    (hT : Reached shown drop T) :
    wpOk (kernel shown) (Reached shown drop) (nftUpdate sha256 config elements)
      (fun outcome T' => ∀ proto,
        Updated shown config.interfaceMatch drop elements (elementsHash sha256 elements) T T' proto
            (outcome proto) ↔
          ∀ listing v4 v6, outcome proto = .applied listing v4 v6 →
            Fits shown config.interfaceMatch drop elements (elementsHash sha256 elements) proto
              listing.isNone T) T := by
  have hh := elementsHash_hex hsha elements
  have hkept : ∀ {proto : Proto} {U U' : Table}, Reached shown drop U →
      (U' = U ∨ ∃ listed, Batched shown config.interfaceMatch proto (elementsHash sha256 elements)
        elements listed U U') → Reached shown drop U' :=
    fun hU h => (turn_kept hshown hU hh h).reached
  refine wpOk_step hT ?_
  intro _ U hU
  obtain rfl : U = T := hU
  apply wpOk_seq_within (turn_spec hshown hT) fun _ h => hkept hT h
  intro tcp M hM htcp
  have hkeptTcp := turn_kept hshown hT hh hM
  apply wpOk_seq_within (turn_spec hshown hkeptTcp.reached) fun _ h => hkept hkeptTcp.reached h
  intro udp T' hT' hudp
  have hkeptUdp := turn_kept hshown hkeptTcp.reached hh hT'
  apply wpOk_pure hkeptUdp.reached
  have hown := updated_own hshown hT hh htcp
  have hown' := updated_own hshown hkeptTcp.reached hh hudp
  have alikeTcp := hkeptUdp.others .tcp (by decide)
  have alikeUdp := hkeptTcp.others .udp (by decide)
  intro proto
  cases proto with
  | tcp =>
    constructor
    · intro hup
      exact hown.mp (Alike.updated (.refl U) alikeTcp.symm hkeptUdp.reached hkeptTcp.reached hup)
    · intro hfits
      exact Alike.updated (.refl U) alikeTcp hkeptTcp.reached hkeptUdp.reached (hown.mpr hfits)
  | udp =>
    constructor
    · intro hup listing v4 v6 ho
      have hfits := hown'.mp
        (Alike.updated alikeUdp (.refl T') hkeptUdp.reached hkeptUdp.reached hup) listing v4 v6 ho
      exact alikeUdp.symm.fits hkeptTcp.reached hT hkeptTcp.last.symm hfits
    · intro hfits
      have hup := hown'.mpr fun listing v4 v6 ho =>
        alikeUdp.fits hT hkeptTcp.reached hkeptTcp.last (hfits listing v4 v6 ho)
      exact Alike.updated alikeUdp.symm (.refl T') hkeptUdp.reached hkeptUdp.reached hup

theorem reached_of_updates (hshown : ShowsSet shown) (hsha : HexDigest sha256) {T₀ : Table}
    (h₀ : Initial shown drop T₀) {runs : List (Table × Elements)}
    (htrace : Trace (update shown sha256 config) T₀ runs T) : Reached shown drop T := by
  apply htrace.keeps h₀.reached
  intro U elements' U' _ hU ⟨o, hrun⟩
  exact (nftUpdate_spec hshown hsha hU).1 U' hrun.toCut

/-- After any updates of a table with one drop rule and no dynamic rule, an update leaves
what it is to leave of every protocol if and only if, for each protocol whose batch is applied,
the last rule that can be taken for the drop rule is the drop rule (or, where nft does not list the
chain, the rules of the protocol are those of the update already), and the sets of the protocol
that are there bear the hash of the update and have no element that it does not have. -/
theorem updated_iff (hshown : ShowsSet shown) (hsha : HexDigest sha256) {T₀ : Table}
    (h₀ : Initial shown drop T₀) {runs : List (Table × Elements)}
    (htrace : Trace (update shown sha256 config) T₀ runs T) {outcome : Proto → Outcome}
    (hrun : Run (kernel shown) (nftUpdate sha256 config elements) T (some (.ok outcome)) T') :
    (∀ proto, Updated shown config.interfaceMatch drop elements (elementsHash sha256 elements)
        T T' proto (outcome proto)) ↔
      ∀ proto listing v4 v6, outcome proto = .applied listing v4 v6 →
        Fits shown config.interfaceMatch drop elements (elementsHash sha256 elements) proto
          listing.isNone T := by
  have hT := reached_of_updates hshown hsha h₀ htrace
  exact forall_congr' ((nftUpdate_spec hshown hsha hT).2 _ T' hrun outcome rfl)

end Updates

/-! ## Two updates -/

theorem updateProto_applies {shown : Shown} {config : Config} {proto : Proto} {h : String}
    {elements : Elements} {T T' : Table}
    (hne : ¬ ((elements proto .v4).isEmpty && (elements proto .v6).isEmpty))
    (happly : applyBatch (batch config.interfaceMatch proto h elements
      (scan proto (T.listing shown))) T = some T') :
    Run (kernel shown) (updateProto config h elements proto) T
      (some (.ok (.applied none (elements proto .v4).length (elements proto .v6).length))) T' := by
  unfold updateProto
  rw [if_neg hne]
  apply run_bind_ok.mpr
  refine ⟨(none, scan proto (T.listing shown)), T, ?_, ?_⟩
  · refine .op (b := .ok (T.listing shown)) ⟨fun items hitems => ?_, rfl⟩ (.pure _ _)
    exact (Except.ok.inj hitems).symm
  · have happly : (kernel shown).step
        (.cmd (batch config.interfaceMatch proto h elements (scan proto (T.listing shown)))) T
        (.ok ()) T' := happly
    exact .op happly (.pure _ _)

theorem updateProto_skips {shown : Shown} {config : Config} {proto : Proto} {h : String}
    {elements : Elements} (T : Table)
    (hempty : (elements proto .v4).isEmpty && (elements proto .v6).isEmpty) :
    Run (kernel shown) (updateProto config h elements proto) T (some (.ok .skipped)) T := by
  unfold updateProto
  rw [if_pos hempty]
  exact .pure _ _

/-- nft's listing of a rule of the table, up to its handle. -/
def listedHead : String :=
  "\x7b\"family\": \"inet\", \"table\": \"filter-output\", " ++ "\"chain\": \"output\", \"handle\":"

/-- The listing from the handle to the name of the field that is matched. -/
def listedMeta : String :=
  " \"expr\": [\x7b\"match\": \x7b\"op\": \"==\", " ++ "\"left\": \x7b\"meta\": \x7b\"key\": "

def listedEth0 : String := "\x7d\x7d, \"right\": \"eth0\"\x7d\x7d, \x7b"

def listedPayload (protocol field : String) : String :=
  "\x7b\"payload\": \x7b\"protocol\": \"" ++ protocol ++ "\", \"field\": \"" ++ field ++ "\"\x7d\x7d"

/-- The match on the address and the port, up to the string of the set. -/
def listedMatch (family : Family) (proto : Proto) : String :=
  "\"match\": \x7b\"op\": \"==\", \"left\": \x7b\"concat\": [" ++
  listedPayload (match family with | .v4 => "ip" | .v6 => "ip6") "daddr" ++ ", " ++
  listedPayload proto.word "dport" ++ "]\x7d, \"right\": "

def listedTail : String := "\x7d\x7d, \x7b\"accept\": null\x7d]\x7d"

/-- nft's listing of an accept rule for the interface eth0. -/
def listedRule (a : Accept) (handle : Nat) : String :=
  listedHead ++ " " ++ toString handle ++ "," ++
    (listedMeta ++ "\"oifname\"" ++ listedEth0) ++ listedMatch a.family a.proto ++
    "\"@" ++ a.set ++ "\"" ++ listedTail

/-- The digests of the two texts that are hashed below. -/
def sampleSha256 (data : String) : String :=
  if data = "\x7b\"tcp_v4\": [[\"1.2.3.4\", 443]]\x7d" then
    "6bf528e03f9331107e1141ad9a7754bd051c18a48059e7c09b7842fdbaaf2e04"
  else "b910708f9669213312647a3ae7d348cf46fc5e115db6eae05298e2c217082f7a"

def dropText : String :=
  listedHead ++ " 7," ++ (listedMeta ++ "\"oifname\"" ++ listedEth0) ++ "\"drop\"" ++
    ": null\x7d]\x7d"

def dropRule : Rule := ⟨7, .static dropText⟩

def sampleTable : Table := { chain := [dropRule], sets := fun _ => none, nextHandle := 8 }

def sampleConfig : Config :=
  { table := "filter-output", chain := "output", interfaceMatch := "eth0" }

/-- One address of a host. -/
def oneAddress (ip : String) : Elements
  | .tcp, .v4 => [(ip, 443)]
  | _, _ => []

def sampleHash (ip : String) : String := elementsHash sampleSha256 (oneAddress ip)

theorem hexDigest_sample : HexDigest sampleSha256 := by
  intro data
  unfold sampleSha256
  have hall : ∀ {s : String}, (s.toList.all fun c => c.isDigit || ('a' ≤ c && c ≤ 'f')) = true →
      ∀ c ∈ s.toList, c.isDigit ∨ ('a' ≤ c ∧ c ≤ 'f') := by
    intro s h c hc
    simpa using List.all_eq_true.mp h c hc
  split
  · exact hall (by decide +kernel)
  · exact hall (by decide +kernel)

theorem sampleHash_ne : sampleHash "1.2.3.4" ≠ sampleHash "5.6.7.8" := by decide +kernel

/-- A text without an underscore names no dynamic set. -/
def NoName (s : String) : Prop := '_' ∉ s.toList

instance (s : String) : Decidable (NoName s) := inferInstanceAs (Decidable (¬ _))

theorem NoName.append {s t : String} (hs : NoName s) (ht : NoName t) : NoName (s ++ t) := by
  unfold NoName
  rw [String.toList_append]
  intro hmem
  rcases List.mem_append.mp hmem with hmem | hmem
  · exact hs hmem
  · exact ht hmem

theorem NoName.digits (n : Nat) : NoName (toString n) := by
  intro hmem
  apply Nat.underscore_not_in_toDigits
  rwa [← Nat.toList_repr]

theorem NoName.not_infix {s : String} (hs : NoName s) (proto : Proto) :
    ¬ (setPrefix proto).toList <:+: s.toList := by
  intro hmem
  apply hs
  apply hmem.subset
  rw [setPrefix_toList]
  simp [afterY]

/-- The texts between the parts of a rule name no dynamic set. -/
theorem noName_texts : NoName listedHead ∧ NoName (listedMeta ++ "\"oifname\"" ++ listedEth0) ∧
    NoName listedTail ∧ NoName "\x7b\"payload\": \x7b\"protocol\": \"" ∧
    NoName "\", \"field\": \"" ∧ NoName "\"\x7d\x7d" ∧
    NoName "\"match\": \x7b\"op\": \"==\", \"left\": \x7b\"concat\": [" ∧ NoName ", " ∧
    NoName "]\x7d, \"right\": " ∧ NoName " " ∧ NoName "," ∧ NoName " 7," ∧ NoName "\"drop\"" ∧
    NoName ": null\x7d]\x7d" := by
  decide +kernel

theorem noName_words : NoName "ip" ∧ NoName "ip6" ∧ NoName "tcp" ∧ NoName "udp" ∧
    NoName "daddr" ∧ NoName "dport" := by
  decide +kernel

theorem noName_payload (field : String) {protocol : String} (hprotocol : NoName protocol)
    (hfield : NoName field) : NoName (listedPayload protocol field) := by
  obtain ⟨-, -, -, hopen, hmiddle, hclose, -⟩ := noName_texts
  exact .append (.append (.append (.append hopen hprotocol) hmiddle) hfield) hclose

theorem noName_match (family : Family) (proto : Proto) : NoName (listedMatch family proto) := by
  obtain ⟨hip, hip6, htcp, hudp, hdaddr, hdport⟩ := noName_words
  obtain ⟨-, -, -, -, -, -, hopen, hcomma, hclose, -⟩ := noName_texts
  have haddress : NoName (match family with | .v4 => "ip" | .v6 => "ip6") := by
    cases family with
    | v4 => exact hip
    | v6 => exact hip6
  have hword : NoName proto.word := by
    cases proto with
    | tcp => exact htcp
    | udp => exact hudp
  have hfirst := noName_payload "daddr" haddress hdaddr
  have hsecond := noName_payload "dport" hword hdport
  exact .append (.append (.append (.append hopen hfirst) hcomma) hsecond) hclose

theorem listedRule_showsSet : ShowsSet listedRule := by
  obtain ⟨hhead, hmeta, htail, -, -, -, -, -, -, hblank, hcomma, -⟩ := noName_texts
  intro a handle
  refine ⟨(listedHead ++ " " ++ toString handle ++ "," ++
    (listedMeta ++ "\"oifname\"" ++ listedEth0) ++ listedMatch a.family a.proto).toList,
    listedTail.toList, by simp [listedRule], ?_⟩
  have hbefore : NoName (listedHead ++ " " ++ toString handle ++ "," ++
      (listedMeta ++ "\"oifname\"" ++ listedEth0) ++ listedMatch a.family a.proto) :=
    .append (.append (.append (.append (.append hhead hblank) (.digits handle)) hcomma) hmeta)
      (noName_match _ _)
  intro proto
  exact ⟨hbefore.not_infix proto, htail.not_infix proto⟩

theorem noName_drop : NoName dropText := by
  obtain ⟨hhead, hmeta, -, -, -, -, -, -, -, -, -, hseven, hdrop, hclose⟩ := noName_texts
  exact .append (.append (.append (.append hhead hseven) hmeta) hdrop) hclose

theorem sampleTable_initial : Initial listedRule dropRule sampleTable where
  nodup := by decide
  fresh := by decide
  static := by
    intro r hr
    obtain rfl := List.mem_singleton.mp hr
    exact ⟨_, rfl⟩
  noDynamic := by
    intro r hr proto
    obtain rfl := List.mem_singleton.mp hr
    cases hm : mentions listedRule proto dropRule with
    | false => rfl
    | true => exact absurd (contains_iff.mp hm) (noName_drop.not_infix proto)
  drop_mem := List.mem_singleton_self _
  isDrop := by
    have hdrop : contains dropText "\"drop\"" = true := by
      apply contains_iff.mpr
      exact ⟨(listedHead ++ " 7," ++ listedMeta ++ "\"oifname\"" ++ listedEth0).toList,
        (": null\x7d]\x7d").toList, by simp [dropText]⟩
    have hiface : contains dropText "\"oifname\"" = true := by
      apply contains_iff.mpr
      exact ⟨(listedHead ++ " 7," ++ listedMeta).toList,
        (listedEth0 ++ "\"drop\"" ++ ": null\x7d]\x7d").toList, by simp [dropText]⟩
    have htext : dropRule.text listedRule = dropText := rfl
    rw [isDrop, isDropText, htext, hdrop, hiface]
    rfl

/-- What a complete update with one address prints. -/
def printed : Proto → Outcome
  | .tcp => .applied none 1 0
  | .udp => .skipped

/-- Where the drop rule is the one taken for it and the sets with the hash of the address, if they
are there, are of their families, an update with the address is applied. -/
theorem oneAddress_applied {T : Table} (hT : Reached listedRule dropRule T)
    (hlast : lastDrop listedRule T = some dropRule) (ip : String)
    (hown : OwnSets .tcp (sampleHash ip) T) :
    ∃ T', Run (kernel listedRule) (nftUpdate sampleSha256 sampleConfig (oneAddress ip)) T
        (some (.ok printed)) T' ∧
      Turned listedRule "eth0" .tcp (sampleHash ip) (oneAddress ip) T T' := by
  have hne : ¬ ((oneAddress ip .tcp .v4).isEmpty && (oneAddress ip .tcp .v6).isEmpty) := by
    simp [oneAddress]
  obtain ⟨T', happly⟩ : ∃ T', applyBatch (batch sampleConfig.interfaceMatch .tcp (sampleHash ip)
      (oneAddress ip) (scan .tcp (T.listing listedRule))) T = some T' :=
    batch_applies listedRule_showsSet hT.toManaged hlast (hT.static .tcp) hown
  have htcp := updateProto_applies hne happly
  have hudp : Run (kernel listedRule)
      (updateProto sampleConfig (sampleHash ip) (oneAddress ip) .udp) T' (some (.ok .skipped)) T' :=
    updateProto_skips T' rfl
  refine ⟨T', ?_, (turn_spec listedRule_showsSet hT).2 _ T' htcp _ rfl⟩
  exact run_bind_ok.mpr ⟨(), T, run_perform_ok.mpr rfl,
    run_bind_ok.mpr ⟨_, T', htcp, run_bind_ok.mpr ⟨_, T', hudp, .pure printed T'⟩⟩⟩

theorem sampleTable_last : lastDrop listedRule sampleTable = some dropRule := by
  have hdrop := sampleTable_initial.isDrop
  simp [lastDrop, sampleTable, hdrop]

/-- The update of a fresh table, which has no set. -/
theorem first_applied (ip : String) : ∃ T,
    Run (kernel listedRule) (nftUpdate sampleSha256 sampleConfig (oneAddress ip)) sampleTable
        (some (.ok printed)) T ∧
      Turned listedRule "eth0" .tcp (sampleHash ip) (oneAddress ip) sampleTable T := by
  apply oneAddress_applied sampleTable_initial.reached sampleTable_last ip
  intro family s hs
  cases hs

/-- The sets of the first update are the only ones. -/
theorem first_sets {ip : String} {T : Table}
    (ht : Turned listedRule "eth0" .tcp (sampleHash ip) (oneAddress ip) sampleTable T)
    {name : String} (hsome : (T.sets name).isSome) : ∃ family,
      name = setName .tcp family (sampleHash ip) ∧
        ∀ e ∈ elementsOf T name, e ∈ oneAddress ip .tcp family := by
  obtain ⟨before, q, after, news, -, ha⟩ := ht
  by_cases hown : ∃ family, name = setName .tcp family (sampleHash ip)
  · obtain ⟨family, rfl⟩ := hown
    refine ⟨family, rfl, fun e he => ?_⟩
    rcases (ha.sets.elements family e).mp he with hold | hnew
    · cases hold
    · exact hnew
  · rw [ha.sets.others name fun family heq => hown ⟨family, heq⟩] at hsome
    cases hsome

/-- The address of the host is the same from one update to the next: the second update leaves what
it is to leave. -/
theorem updated_iff_sample : ∃ T T',
    update listedRule sampleSha256 sampleConfig sampleTable (oneAddress "1.2.3.4") T ∧
      Run (kernel listedRule) (nftUpdate sampleSha256 sampleConfig (oneAddress "1.2.3.4")) T
        (some (.ok printed)) T' ∧
      ∀ proto, Updated listedRule "eth0" dropRule (oneAddress "1.2.3.4") (sampleHash "1.2.3.4")
        T T' proto (printed proto) := by
  have hreached := sampleTable_initial.reached
  have hh := elementsHash_hex hexDigest_sample (oneAddress "1.2.3.4")
  obtain ⟨T, hrun, hturned⟩ := first_applied "1.2.3.4"
  have hkept := hturned.kept listedRule_showsSet hreached hh
  have hlast := hkept.last.trans sampleTable_last
  have hown : OwnSets .tcp (sampleHash "1.2.3.4") T := by
    obtain ⟨before, q, after, news, -, ha⟩ := hturned
    intro family s hs
    obtain ⟨s', hs', hfamily⟩ := ha.sets.there family
    obtain rfl := Option.some.inj (hs'.symm.trans hs)
    exact hfamily
  obtain ⟨T', hrun', -⟩ := oneAddress_applied hkept.reached hlast "1.2.3.4" hown
  refine ⟨T, T', ⟨_, hrun⟩, hrun', ?_⟩
  apply (updated_iff listedRule_showsSet hexDigest_sample sampleTable_initial
    (.cons ⟨_, hrun⟩ (.nil T)) hrun').mpr
  intro proto listing v4 v6 hprinted
  cases proto with
  | tcp =>
    cases hprinted
    exact ⟨hlast, fun name _ hsome => first_sets hturned hsome⟩
  | udp => cases hprinted

theorem setName_sampleHash (family family' : Family) :
    setName .tcp family (sampleHash "1.2.3.4") ≠ setName .tcp family' (sampleHash "5.6.7.8") := by
  intro heq
  apply sampleHash_ne
  have hlist := congrArg String.toList heq
  rw [setName_toList, setName_toList] at hlist
  have htail := List.append_cancel_left hlist
  apply String.toList_inj.mp
  cases family <;> cases family'
  · simpa [Family.word] using htail
  · simp [Family.word] at htail
  · simp [Family.word] at htail
  · simpa [Family.word] using htail

/-- The address of the host changes from one update to the next, and both updates are applied to a
table that was fresh. -/
theorem both_applied : ∃ T T',
    Run (kernel listedRule) (nftUpdate sampleSha256 sampleConfig (oneAddress "1.2.3.4")) sampleTable
        (some (.ok printed)) T ∧
      Run (kernel listedRule) (nftUpdate sampleSha256 sampleConfig (oneAddress "5.6.7.8")) T
        (some (.ok printed)) T' ∧
      SetsUpdated .tcp (sampleHash "1.2.3.4") (oneAddress "1.2.3.4") sampleTable T ∧
      SetsUpdated .tcp (sampleHash "5.6.7.8") (oneAddress "5.6.7.8") T T' := by
  have hreached := sampleTable_initial.reached
  have hh := elementsHash_hex hexDigest_sample (oneAddress "1.2.3.4")
  obtain ⟨T, hrun, hturned⟩ := first_applied "1.2.3.4"
  have hkept := hturned.kept listedRule_showsSet hreached hh
  have hown : OwnSets .tcp (sampleHash "5.6.7.8") T := by
    intro family s hs
    obtain ⟨family', heq, -⟩ := first_sets hturned (Option.isSome_of_eq_some hs)
    exact absurd heq.symm (setName_sampleHash family' family)
  obtain ⟨T', hrun', hturned'⟩ := oneAddress_applied hkept.reached
    (hkept.last.trans sampleTable_last) "5.6.7.8" hown
  obtain ⟨_, _, _, _, -, ha⟩ := hturned
  obtain ⟨_, _, _, _, -, ha'⟩ := hturned'
  exact ⟨T, T', hrun, hrun', ha.sets, ha'.sets⟩

/-- Of two updates with different addresses the first one's set is left behind. -/
theorem sets_left_behind : ∃ T T',
    update listedRule sampleSha256 sampleConfig sampleTable (oneAddress "1.2.3.4") T ∧
      Run (kernel listedRule) (nftUpdate sampleSha256 sampleConfig (oneAddress "5.6.7.8")) T
        (some (.ok printed)) T' ∧
      (T'.sets (setName .tcp .v4 (sampleHash "1.2.3.4"))).isSome ∧
      ¬ Updated listedRule "eth0" dropRule (oneAddress "5.6.7.8") (sampleHash "5.6.7.8") T T' .tcp
        (printed .tcp) := by
  obtain ⟨T, T', hrun, hrun', hsets, hsets'⟩ := both_applied
  have hleft : (T'.sets (setName .tcp .v4 (sampleHash "1.2.3.4"))).isSome := by
    obtain ⟨s, hs, -⟩ := hsets.there .v4
    rw [hsets'.others _ fun family => setName_sampleHash .v4 family, hs]
    rfl
  refine ⟨T, T', ⟨_, hrun⟩, hrun', hleft, ?_⟩
  intro hlatest
  obtain ⟨family, heq⟩ := (hlatest.sets _ (startsWith_setName _ _ _)).mp hleft
  exact setName_sampleHash .v4 family heq

end Foundrix.NftablesDns
