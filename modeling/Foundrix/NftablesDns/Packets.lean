import Foundrix.NftablesDns.Latest

/-!
# What the chain lets through

The table as a filter on packets. Sets of earlier updates are left behind, but no rule refers to
them: the chain decides as the static rules do, with one rule before the drop rule that accepts
what the last batch of each protocol that was applied after a listing of the chain resolved to.

* `Packet`, `Meaning`, `Table.verdict`: packets, and what the table decides about one.
* `Policy`, `Policy.Step`, `Policy.verdict`: what is allowed, and what an update makes of it.
* `Holds`, `Turned.holds`: the chain and the sets beside what is allowed.
* `updates_enforce`: every run of updates enforces a policy.
-/

namespace Foundrix.NftablesDns

open Effect Machine Text

/-! ## Packets -/

/-- A packet that leaves the machine. -/
structure Packet where
  oifname : String
  family : Family
  /-- None where it is neither TCP nor UDP. -/
  proto : Option Proto
  daddr : String
  dport : Nat
deriving DecidableEq, Repr

inductive Verdict where
  | accept
  | drop
deriving DecidableEq, Repr

/-- What the texts of the configuration mean to a packet: an interface match, and a rule, which
decides or does not. -/
structure Meaning where
  leaves : String → Packet → Bool
  static : String → Packet → Option Verdict

def Accept.covers (M : Meaning) (T : Table) (p : Packet) (a : Accept) : Bool :=
  M.leaves a.iface p && p.family = a.family && p.proto = some a.proto &&
    (elementsOf T a.set).contains (p.daddr, p.dport)

def Rule.verdict (M : Meaning) (T : Table) (p : Packet) (r : Rule) : Option Verdict :=
  match r.expr with
  | .static rule_json => M.static rule_json p
  | .accept a => if a.covers M T p then some .accept else none

/-- The first rule that decides does; there is none where the chain is run through. -/
def Table.verdict (M : Meaning) (T : Table) (p : Packet) : Option Verdict :=
  T.chain.findSome? (Rule.verdict M T p)

/-! ## Policies -/

/-- The (address, port) pairs that are allowed. -/
abbrev Policy := Proto → Family → List (String × Nat)

namespace Policy

def none : Policy := fun _ _ => []

def allows (P : Policy) (p : Packet) : Bool :=
  match p.proto with
  | .none => false
  | .some proto => (P proto p.family).contains (p.daddr, p.dport)

/-- The static rules, with the policy in front of the drop rule. -/
def verdict (M : Meaning) (iface : String) (drop : Rule) (T₀ : Table) (P : Policy) (p : Packet) :
    Option Verdict :=
  ((T₀.chain.takeWhile fun r => r ≠ drop).findSome? (Rule.verdict M T₀ p)).or
    ((if M.leaves iface p && P.allows p then some .accept else .none).or
      ((T₀.chain.dropWhile fun r => r ≠ drop).findSome? (Rule.verdict M T₀ p)))

end Policy

/-- A run of the script with these elements, and how it ended if it was not cut. -/
abbrev Attempt := Elements × Option (Except Empty (Proto → Outcome))

/-- What is there after a turn: the new one where the chain was listed and the batch applied.
Without a listing the old rules stay. -/
def Outcome.replace {α : Type} (new old : α) : Outcome → α
  | .applied none _ _ => new
  | .applied (some _) _ _ | .failed _ _ | .skipped => old

/-- For each protocol a run sets the policy to its own elements or leaves it; which, is told at
its end. -/
def Policy.Step (P : Policy) (a : Attempt) (P' : Policy) : Prop :=
  (∀ proto, P' proto = P proto ∨ P' proto = a.1 proto) ∧
    ∀ outcome, a.2 = some (.ok outcome) → ∀ proto,
      P' proto = (outcome proto).replace (a.1 proto) (P proto)

/-- One run of the script. -/
def attempt (shown : Shown) (sha256 : String → String) (config : Config) (T : Table) (a : Attempt)
    (T' : Table) : Prop :=
  Run (kernel shown) (nftUpdate sha256 config a.1) T a.2 T'

/-! ## The table beside the policy -/

section Table

variable {shown : Shown} {iface h h' : String} {hash : Elements → String} {drop : Rule}
  {before after : List Rule} {Es : List Elements} {current : Proto → Option Elements}
  {E : Elements} {T T' : Table} {proto proto' : Proto} {family family' : Family}

theorem setName_inj (hh : IsHex h) (heq : setName proto' family' h' = setName proto family h) :
    proto' = proto ∧ family' = family ∧ h' = h := by
  have hmem : (setPrefix proto').toList <:+: (setName proto family h).toList := by
    rw [← heq, setName_toList]
    exact (List.prefix_append _ _).isInfix
  obtain rfl := setName_mentions hh hmem
  have hlist := congrArg String.toList heq
  rw [setName_toList, setName_toList] at hlist
  have htail := List.append_cancel_left hlist
  cases family' <;> cases family
  · exact ⟨rfl, rfl, String.toList_inj.mp (by simpa [Family.word] using htail)⟩
  · simp [Family.word] at htail
  · simp [Family.word] at htail
  · exact ⟨rfl, rfl, String.toList_inj.mp (by simpa [Family.word] using htail)⟩

/-- The accept rules stand in front of the drop rule and are those of the current update of each
protocol, and a set has no other elements than those of an update with its hash. -/
structure Holds (shown : Shown) (iface : String) (hash : Elements → String) (drop : Rule)
    (before after : List Rule) (Es : List Elements) (current : Proto → Option Elements)
    (T : Table) : Prop where
  reached : Reached shown drop T
  last : lastDrop shown T = some drop
  chain : ∃ rules, T.chain = before ++ rules ++ drop :: after ∧
    (∀ r ∈ rules, ∃ a, r.expr = .accept a) ∧
    ∀ a, .accept a ∈ rules.map Rule.expr ↔
      ∃ E, current a.proto = some E ∧ a ∈ accepts iface a.proto (hash E) E
  known : ∀ proto E, current proto = some E → E ∈ Es
  sets : ∀ proto family h e, e ∈ elementsOf T (setName proto family h) →
    ∃ E ∈ Es, hash E = h ∧ e ∈ E proto family
  there : ∀ proto E, current proto = some E → ∀ family, ∀ e ∈ E proto family,
    e ∈ elementsOf T (setName proto family (hash E))

/-- The batch of an update replaces the accept rules of its protocol. -/
theorem Turned.chain {rules : List Rule} (hT : Reached shown drop T)
    (hlast : lastDrop shown T = some drop) (hchain : T.chain = before ++ rules ++ drop :: after)
    (hstatic : ∀ r ∈ before ++ after, mentions shown proto r = false)
    (ht : Turned shown iface proto h E T T') :
    ∃ news, T'.chain =
        before ++ (rules.filter (fun r => !mentions shown proto r) ++ news) ++ drop :: after ∧
      news.map Rule.expr = (accepts iface proto h E).map .accept := by
  obtain ⟨front, q, back, news, -, ha⟩ := ht
  obtain rfl : q = drop := Option.some.inj (ha.last.symm.trans hlast)
  have quiet : ∀ l : List Rule, (∀ r ∈ l, r ∈ before ++ after) →
      l.filter (fun r => !mentions shown proto r) = l := by
    intro l hl
    apply List.filter_eq_self.mpr
    intro r hr
    rw [hstatic r (hl r hr)]
    rfl
  have hkept : (before ++ rules.filter fun r => !mentions shown proto r) ++ q :: after =
      front ++ q :: back := by
    rw [← ha.kept, NftablesDns.kept, hchain]
    simp only [List.filter_append, List.filter_cons, hT.static proto, Bool.not_false, if_true]
    rw [quiet before fun r hr => List.mem_append_left _ hr,
      quiet after fun r hr => List.mem_append_right _ hr]
  have hnodup := hT.chain_nodup
  rw [hchain] at hnodup
  obtain ⟨-, hrest, hdisjoint⟩ := List.nodup_append.mp hnodup
  have hback : q ∉ after := (List.nodup_cons.mp hrest).1
  have hfront : q ∉ before ++ rules.filter fun r => !mentions shown proto r := by
    intro hmem
    refine hdisjoint q ?_ q List.mem_cons_self rfl
    rcases List.mem_append.mp hmem with hmem | hmem
    · exact List.mem_append_left _ hmem
    · exact List.mem_append_right _ (List.mem_filter.mp hmem).1
  obtain ⟨hsame, -, hsame'⟩ := (List.append_cons_inj_of_notMem hfront hback).mp hkept
  refine ⟨news, ?_, ha.exprs⟩
  rw [ha.chain, ← hsame, ← hsame']
  simp

theorem Turned.elements (ht : Turned shown iface proto h E T T') :
    SetsUpdated proto h E T T' := by
  obtain ⟨_, _, _, _, -, ha⟩ := ht
  exact ha.sets

/-- The elements of a set are its own or those of an update with its hash. -/
theorem SetsUpdated.elements_from (hh : IsHex (hash E)) (hE : E ∈ Es)
    (hsets : SetsUpdated proto (hash E) E T T')
    (hT : ∀ proto family h e, e ∈ elementsOf T (setName proto family h) →
      ∃ E ∈ Es, hash E = h ∧ e ∈ E proto family) {e : String × Nat}
    (he : e ∈ elementsOf T' (setName proto' family' h')) :
    ∃ E ∈ Es, hash E = h' ∧ e ∈ E proto' family' := by
  by_cases hown : ∃ family, setName proto' family' h' = setName proto family (hash E)
  · obtain ⟨family, heq⟩ := hown
    obtain ⟨rfl, rfl, rfl⟩ := setName_inj hh heq
    rcases (hsets.elements family' e).mp he with hold | hnew
    · exact hT _ _ _ _ hold
    · exact ⟨E, hE, rfl, hnew⟩
  · rw [elementsOf, hsets.others _ fun family heq => hown ⟨family, heq⟩] at he
    exact hT _ _ _ _ he

/-- No element is taken out of a set. -/
theorem SetsUpdated.elements_stay (hsets : SetsUpdated proto h E T T') {e : String × Nat}
    (he : e ∈ elementsOf T (setName proto' family' h')) :
    e ∈ elementsOf T' (setName proto' family' h') := by
  by_cases hown : ∃ family, setName proto' family' h' = setName proto family h
  · obtain ⟨family, heq⟩ := hown
    rw [heq] at he ⊢
    exact (hsets.elements family e).mpr (Or.inl he)
  · rw [elementsOf, hsets.others _ fun family heq => hown ⟨family, heq⟩]
    exact he

/-- An update that was applied without a listing leaves the current ones current. -/
theorem Widened.holds (hh : IsHex (hash E)) (hE : E ∈ Es)
    (hT : Holds shown iface hash drop before after Es current T)
    (hw : Widened proto (hash E) E T T') :
    Holds shown iface hash drop before after Es current T' where
  reached := hw.reached hT.reached
  last := hw.lastDrop_eq.trans hT.last
  chain := hw.chain.symm ▸ hT.chain
  known := hT.known
  sets := fun _ _ _ _ => hw.sets.elements_from hh hE hT.sets
  there := fun proto' E' hcurrent family' e he =>
    hw.sets.elements_stay (hT.there proto' E' hcurrent family' e he)

/-- Of the accept rules those of the other protocols are kept. -/
theorem Reached.accept_kept (hshown : ShowsSet shown) (hT : Reached shown drop T)
    {rules : List Rule} (hrules : rules ⊆ T.chain) (a : Accept) :
    Expr.accept a ∈ (rules.filter fun r => !mentions shown proto r).map Rule.expr ↔
      proto ≠ a.proto ∧ Expr.accept a ∈ rules.map Rule.expr := by
  have hnames : ∀ r ∈ rules, r.expr = .accept a →
      (mentions shown proto r = true ↔ proto = a.proto) := by
    rintro ⟨handle, expr⟩ hr rfl
    exact mentions_accept hshown (hT.known _ (hrules hr)) handle proto
  constructor
  · intro hmem
    obtain ⟨r, hr, hexpr⟩ := List.mem_map.mp hmem
    obtain ⟨hr, hquiet⟩ := List.mem_filter.mp hr
    refine ⟨fun heq => ?_, hexpr ▸ List.mem_map_of_mem hr⟩
    rw [(hnames r hr hexpr).mpr heq] at hquiet
    cases hquiet
  · rintro ⟨hne, hmem⟩
    obtain ⟨r, hr, hexpr⟩ := List.mem_map.mp hmem
    refine hexpr ▸ List.mem_map_of_mem (List.mem_filter.mpr ⟨hr, ?_⟩)
    have hquiet : mentions shown proto r = false := by
      simpa using (hnames r hr hexpr).not.mpr hne
    rw [hquiet]
    rfl

/-- An update whose batch was applied after a listing is the current one of its protocol. -/
theorem Turned.holds (hshown : ShowsSet shown) (hh : IsHex (hash E)) (hE : E ∈ Es)
    (hstatic : ∀ r ∈ before ++ after, ∀ proto, mentions shown proto r = false)
    (hT : Holds shown iface hash drop before after Es current T)
    (ht : Turned shown iface proto (hash E) E T T') :
    Holds shown iface hash drop before after Es (Function.update current proto (some E)) T' := by
  have hkept := ht.kept hshown hT.reached hh
  have hsets := ht.elements
  refine ⟨hkept.reached, hkept.last.trans hT.last, ?_, ?_, ?_, ?_⟩
  · obtain ⟨rules, hchain, haccept, hrules⟩ := hT.chain
    obtain ⟨news, hchain', hnews⟩ := ht.chain hT.reached hT.last hchain
      fun r hr => hstatic r hr proto
    have hnew : ∀ a, Expr.accept a ∈ news.map Rule.expr ↔ a ∈ accepts iface proto (hash E) E := by
      intro a
      rw [hnews]
      exact List.mem_map_of_injective fun _ _ => Expr.accept.inj
    have hthere : rules ⊆ T.chain := by
      rw [hchain]
      exact fun r hr => List.mem_append_left _ (List.mem_append_right _ hr)
    refine ⟨_, hchain', ?_, fun a => ?_⟩
    · intro r hr
      rcases List.mem_append.mp hr with hr | hr
      · exact haccept r (List.mem_filter.mp hr).1
      · have hexpr : r.expr ∈ (accepts iface proto (hash E) E).map Expr.accept :=
          hnews ▸ List.mem_map_of_mem hr
        obtain ⟨a, -, heq⟩ := List.mem_map.mp hexpr
        exact ⟨a, heq.symm⟩
    · rw [List.map_append, List.mem_append, hT.reached.accept_kept hshown hthere, hrules, hnew]
      by_cases heq : a.proto = proto
      · subst heq
        simp
      · rw [Function.update_of_ne heq]
        have hother : a ∉ accepts iface proto (hash E) E :=
          fun hmem => heq (accepts_wellNamed hh hmem).2
        simp [hother, Ne.symm heq]
  · intro proto' E' hcurrent
    by_cases heq : proto' = proto
    · subst heq
      rw [Function.update_self] at hcurrent
      exact Option.some.inj hcurrent ▸ hE
    · rw [Function.update_of_ne heq] at hcurrent
      exact hT.known proto' E' hcurrent
  · exact fun _ _ _ _ => hsets.elements_from hh hE hT.sets
  · intro proto' E' hcurrent family' e he
    by_cases heq : proto' = proto
    · subst heq
      rw [Function.update_self] at hcurrent
      obtain rfl := Option.some.inj hcurrent
      exact (hsets.elements family' e).mpr (Or.inr he)
    · rw [Function.update_of_ne heq] at hcurrent
      exact hsets.elements_stay (hT.there proto' E' hcurrent family' e he)

/-! ## A run -/

theorem turn_holds {config : Config} (hshown : ShowsSet shown) (hh : IsHex (hash E)) (hE : E ∈ Es)
    (hstatic : ∀ r ∈ before ++ after, ∀ proto, mentions shown proto r = false)
    (hT : Holds shown config.interfaceMatch hash drop before after Es current T) :
    wpOk (kernel shown)
      (fun T' => ∃ new, (new = current proto ∨ new = some E) ∧
        Holds shown config.interfaceMatch hash drop before after Es
          (Function.update current proto new) T')
      (updateProto config (hash E) E proto)
      (fun outcome T' => Holds shown config.interfaceMatch hash drop before after Es
        (Function.update current proto (outcome.replace (some E) (current proto))) T') T := by
  have left : Holds shown config.interfaceMatch hash drop before after Es
      (Function.update current proto (current proto)) T := by
    rw [Function.update_eq_self]
    exact hT
  have hturned : ∀ T', Batched shown config.interfaceMatch proto (hash E) E true T T' →
      Holds shown config.interfaceMatch hash drop before after Es
        (Function.update current proto (some E)) T' :=
    fun T' ht => Turned.holds hshown hh hE hstatic hT ht
  have hwidened : ∀ T', Batched shown config.interfaceMatch proto (hash E) E false T T' →
      Holds shown config.interfaceMatch hash drop before after Es
        (Function.update current proto (current proto)) T' := by
    intro T' hw
    rw [Function.update_eq_self]
    exact Widened.holds hh hE hT hw
  refine wp_always_mono (wpOk_mono (turn_spec hshown hT.reached) fun outcome T' _ ho => ?_) ?_
  · cases outcome with
    | applied listing _ _ =>
      cases listing with
      | none => exact hturned T' ho
      | some error => exact hwidened T' ho
    | failed | skipped =>
      obtain rfl : T' = T := ho
      exact left
  · intro T' hT'
    rcases hT' with rfl | ⟨listed, hb⟩
    · exact ⟨_, Or.inl rfl, left⟩
    · cases listed with
      | true => exact ⟨_, Or.inr rfl, hturned T' hb⟩
      | false => exact ⟨_, Or.inl rfl, hwidened T' hb⟩

theorem Outcome.replace_cases {α : Type} (new old : α) (outcome : Outcome) :
    outcome.replace new old = old ∨ outcome.replace new old = new := by
  cases outcome with
  | applied listing _ _ =>
    cases listing with
    | none => exact Or.inr rfl
    | some error => exact Or.inl rfl
  | failed | skipped => exact Or.inl rfl

theorem nftUpdate_holds {sha256 : String → String} {config : Config} (hshown : ShowsSet shown)
    (hsha : HexDigest sha256) (hE : E ∈ Es)
    (hstatic : ∀ r ∈ before ++ after, ∀ proto, mentions shown proto r = false)
    (hT : Holds shown config.interfaceMatch (elementsHash sha256) drop before after Es current T) :
    wpOk (kernel shown)
      (fun T' => ∃ current', (∀ proto, current' proto = current proto ∨ current' proto = some E) ∧
        Holds shown config.interfaceMatch (elementsHash sha256) drop before after Es current' T')
      (nftUpdate sha256 config E)
      (fun outcome T' => ∃ current',
        (∀ proto, current' proto = (outcome proto).replace (some E) (current proto)) ∧
        Holds shown config.interfaceMatch (elementsHash sha256) drop before after Es current' T')
      T := by
  have hh := elementsHash_hex hsha E
  have first : ∀ new : Option Elements, (new = current .tcp ∨ new = some E) → ∀ proto,
      Function.update current .tcp new proto = current proto ∨
        Function.update current .tcp new proto = some E := by
    intro new hnew proto
    cases proto with
    | tcp => exact hnew
    | udp => exact Or.inl rfl
  refine wpOk_step ⟨current, fun _ => Or.inl rfl, hT⟩ ?_
  intro _ U hU
  obtain rfl : U = T := hU
  apply wpOk_seq_within (turn_holds hshown hh hE hstatic hT)
  · intro M ⟨new, hnew, hM⟩
    exact ⟨_, first new hnew, hM⟩
  intro tcp M _ hM
  have htcp := tcp.replace_cases (some E) (current .tcp)
  apply wpOk_seq_within (turn_holds hshown hh hE hstatic hM)
  · intro T' ⟨new, hnew, hT'⟩
    refine ⟨_, fun proto => ?_, hT'⟩
    cases proto with
    | tcp => exact first _ htcp .tcp
    | udp => exact hnew
  intro udp T' hT' hend
  refine wpOk_pure ?_ ⟨_, fun proto => ?_, hend⟩
  · obtain ⟨new, hnew, hT'⟩ := hT'
    refine ⟨_, fun proto => ?_, hT'⟩
    cases proto with
    | tcp => exact first _ htcp .tcp
    | udp => exact hnew
  · cases proto with
    | tcp => rfl
    | udp => rfl

/-! ## What the chain decides -/

/-- No two of the updates that differ in more than the order of their elements share a hash. -/
def NoCollision (hash : Elements → String) (Es : List Elements) : Prop :=
  ∀ E ∈ Es, ∀ E' ∈ Es, hash E = hash E' →
    ∀ proto family e, e ∈ E proto family ↔ e ∈ E' proto family

/-- What the updates whose rules stand in the chain allow. -/
def policyOf (current : Proto → Option Elements) : Policy :=
  fun proto family => match current proto with
    | none => []
    | some E => E proto family

theorem Holds.elements_iff (hT : Holds shown iface hash drop before after Es current T)
    (hhash : NoCollision hash Es) (hcurrent : current proto = some E) {e : String × Nat} :
    e ∈ elementsOf T (setName proto family (hash E)) ↔ e ∈ E proto family := by
  constructor
  · intro he
    obtain ⟨E', hE', heq, he'⟩ := hT.sets proto family _ e he
    exact (hhash E' hE' E (hT.known proto E hcurrent) heq proto family e).mp he'
  · exact hT.there proto E hcurrent family e

theorem mem_accepts {a : Accept} : a ∈ accepts iface proto h E ↔
    a = ⟨iface, a.family, proto, setName proto a.family h⟩ ∧ E proto a.family ≠ [] := by
  have hfamily : a.family ∈ [Family.v4, .v6] := by cases a.family <;> simp
  constructor
  · intro ha
    obtain ⟨family, hfilter, rfl⟩ := List.mem_map.mp ha
    have hne := (List.mem_filter.mp hfilter).2
    exact ⟨rfl, by simpa using hne⟩
  · intro ⟨heq, hne⟩
    exact List.mem_map.mpr ⟨a.family, List.mem_filter.mpr ⟨hfamily, by simpa using hne⟩, heq.symm⟩

/-- The accept rules let through what the current updates allow. -/
theorem Holds.allows (hT : Holds shown iface hash drop before after Es current T)
    (hhash : NoCollision hash Es) (M : Meaning) (p : Packet) :
    (∃ a, (∃ E, current a.proto = some E ∧ a ∈ accepts iface a.proto (hash E) E) ∧
        a.covers M T p = true) ↔
      M.leaves iface p = true ∧ (policyOf current).allows p = true := by
  constructor
  · intro ⟨a, ⟨E, hcurrent, ha⟩, hcovers⟩
    obtain ⟨heq, -⟩ := mem_accepts.mp ha
    simp only [Accept.covers, Bool.and_eq_true, decide_eq_true_eq, List.contains_eq_mem] at hcovers
    obtain ⟨⟨⟨hleaves, hfamily⟩, hproto⟩, he⟩ := hcovers
    rw [heq] at he hleaves
    have hmem := (hT.elements_iff hhash hcurrent).mp he
    refine ⟨hleaves, ?_⟩
    simp only [Policy.allows, hproto, policyOf, hcurrent, hfamily, List.contains_eq_mem,
      decide_eq_true_eq]
    exact hmem
  · intro ⟨hleaves, hallows⟩
    cases hproto : p.proto with
    | none => simp [Policy.allows, hproto] at hallows
    | some proto =>
      cases hcurrent : current proto with
      | none => simp [Policy.allows, policyOf, hproto, hcurrent] at hallows
      | some E =>
        have hmem : (p.daddr, p.dport) ∈ E proto p.family := by
          simpa [Policy.allows, policyOf, hproto, hcurrent] using hallows
        refine ⟨⟨iface, p.family, proto, setName proto p.family (hash E)⟩, ⟨E, hcurrent, ?_⟩, ?_⟩
        · exact mem_accepts.mpr ⟨rfl, List.ne_nil_of_mem hmem⟩
        · simp only [Accept.covers, hleaves, hproto, Bool.and_eq_true, decide_eq_true_eq,
            List.contains_eq_mem, true_and]
          exact (hT.elements_iff hhash hcurrent).mpr hmem

/-- The rules of the configuration decide without the sets. -/
theorem findSome?_static {rules : List Rule}
    (hrules : ∀ r ∈ rules, ∃ rule_json, r.expr = .static rule_json) (M : Meaning)
    (T T' : Table) (p : Packet) :
    rules.findSome? (Rule.verdict M T p) = rules.findSome? (Rule.verdict M T' p) := by
  induction rules with
  | nil => rfl
  | cons r rules ih =>
    obtain ⟨rule_json, hexpr⟩ := hrules r List.mem_cons_self
    have hsame : r.verdict M T p = r.verdict M T' p := by
      unfold Rule.verdict
      rw [hexpr]
    rw [List.findSome?_cons, List.findSome?_cons, hsame,
      ih fun r hr => hrules r (List.mem_cons_of_mem _ hr)]

/-- Accept rules accept, or do not decide. -/
theorem findSome?_accepts {rules : List Rule} (hrules : ∀ r ∈ rules, ∃ a, r.expr = .accept a)
    (M : Meaning) (T : Table) (p : Packet) {allowed : Bool}
    (hallowed : (∃ a, .accept a ∈ rules.map Rule.expr ∧ a.covers M T p = true) ↔ allowed = true) :
    rules.findSome? (Rule.verdict M T p) = if allowed then some .accept else none := by
  cases allowed with
  | true =>
    obtain ⟨a, ha, hcovers⟩ := hallowed.mpr rfl
    obtain ⟨r, hr, hexpr⟩ := List.mem_map.mp ha
    cases hfound : rules.findSome? (Rule.verdict M T p) with
    | none =>
      have hnone := List.findSome?_eq_none_iff.mp hfound r hr
      simp [Rule.verdict, hexpr, hcovers] at hnone
    | some v =>
      obtain ⟨r', hr', hv⟩ := List.exists_of_findSome?_eq_some hfound
      obtain ⟨a', hexpr'⟩ := hrules r' hr'
      cases hc : a'.covers M T p with
      | true => simpa [Rule.verdict, hexpr', hc] using hv.symm
      | false => simp [Rule.verdict, hexpr', hc] at hv
  | false =>
    apply List.findSome?_eq_none_iff.mpr
    intro r hr
    obtain ⟨a, hexpr⟩ := hrules r hr
    have hcovers : a.covers M T p = false := by
      cases hc : a.covers M T p with
      | false => rfl
      | true => cases hallowed.mp ⟨a, hexpr ▸ List.mem_map_of_mem hr, hc⟩
    simp [Rule.verdict, hexpr, hcovers]

theorem Initial.drop_next {T₀ : Table} (h₀ : Initial shown drop T₀) :
    ∃ after, (T₀.chain.dropWhile fun r => r ≠ drop) = drop :: after := by
  have hhead := List.head?_dropWhile_not (fun r => r ≠ drop) T₀.chain
  cases hrest : T₀.chain.dropWhile fun r => r ≠ drop with
  | nil =>
    have hall := List.dropWhile_eq_nil_iff.mp hrest drop h₀.drop_mem
    simp at hall
  | cons r after =>
    rw [hrest] at hhead
    obtain rfl : r = drop := by simpa using hhead
    exact ⟨after, rfl⟩

/-- Before the first update nothing is allowed. -/
theorem Initial.holds {T₀ : Table} (h₀ : Initial shown drop T₀)
    (hlast : lastDrop shown T₀ = some drop)
    (hsets : ∀ proto family h, T₀.sets (setName proto family h) = none)
    (hchain : T₀.chain = before ++ drop :: after) :
    Holds shown iface hash drop before after Es (fun _ => none) T₀ where
  reached := h₀.reached
  last := hlast
  chain := ⟨[], by rw [List.append_nil, hchain], by simp, by simp⟩
  known := by
    intro _ _ hnone
    cases hnone
  sets := by
    intro proto family h e he
    rw [elementsOf, hsets] at he
    cases he
  there := by
    intro _ _ hnone
    cases hnone

theorem Holds.verdict {T₀ : Table} (h₀ : Initial shown drop T₀)
    (hbefore : (T₀.chain.takeWhile fun r => r ≠ drop) = before)
    (hafter : (T₀.chain.dropWhile fun r => r ≠ drop) = drop :: after)
    (hT : Holds shown iface hash drop before after Es current T) (hhash : NoCollision hash Es)
    (M : Meaning) (p : Packet) :
    T.verdict M p = (policyOf current).verdict M iface drop T₀ p := by
  obtain ⟨rules, hchain, haccept, hrules⟩ := hT.chain
  have hmem : ∀ r, r ∈ before ∨ r ∈ drop :: after → r ∈ T₀.chain := by
    intro r hr
    rw [← hbefore, ← hafter] at hr
    rcases hr with hr | hr
    · exact (List.takeWhile_prefix _).subset hr
    · exact (List.dropWhile_suffix _).subset hr
  have hfront := findSome?_static (fun r hr => h₀.static r (hmem r (Or.inl hr))) M T T₀ p
  have hback := findSome?_static (fun r hr => h₀.static r (hmem r (Or.inr hr))) M T T₀ p
  have hmiddle : rules.findSome? (Rule.verdict M T p) =
      if M.leaves iface p && (policyOf current).allows p then some .accept else none := by
    apply findSome?_accepts haccept
    rw [Bool.and_eq_true, ← hT.allows hhash M p]
    exact exists_congr fun a => and_congr_left' (hrules a)
  rw [Table.verdict, hchain, List.findSome?_append, List.findSome?_append, hfront, hback, hmiddle,
    Policy.verdict, hbefore, hafter, Option.or_assoc]

/-- A run of the script is a step of the policy. -/
theorem attempt_policy {sha256 : String → String} {config : Config} (hshown : ShowsSet shown)
    (hsha : HexDigest sha256) {a : Attempt} (hE : a.1 ∈ Es)
    (hstatic : ∀ r ∈ before ++ after, ∀ proto, mentions shown proto r = false)
    (hT : Holds shown config.interfaceMatch (elementsHash sha256) drop before after Es current T)
    (hrun : attempt shown sha256 config T a T') :
    ∃ P', Policy.Step (policyOf current) a P' ∧ ∃ current', P' = policyOf current' ∧
      Holds shown config.interfaceMatch (elementsHash sha256) drop before after Es current' T' := by
  obtain ⟨hcut, hend⟩ := nftUpdate_holds hshown hsha hE hstatic hT
  by_cases hdone : ∃ outcome, a.2 = some (.ok outcome)
  · obtain ⟨outcome, ho⟩ := hdone
    have hrun' : Run (kernel shown) (nftUpdate sha256 config a.1) T (some (.ok outcome)) T' :=
      ho ▸ hrun
    obtain ⟨current', hcurrent, hT'⟩ := hend _ T' hrun' outcome rfl
    have hreplace : ∀ proto, policyOf current' proto =
        (outcome proto).replace (a.1 proto) (policyOf current proto) := by
      intro proto
      funext family
      unfold policyOf
      rw [hcurrent proto]
      cases outcome proto with
      | applied listing _ _ => cases listing <;> rfl
      | failed | skipped => rfl
    refine ⟨policyOf current', ⟨fun proto => ?_, ?_⟩, current', rfl, hT'⟩
    · rw [hreplace proto]
      exact (outcome proto).replace_cases _ _
    · intro outcome' ho' proto
      obtain rfl : outcome' = outcome := by simpa [ho] using ho'.symm
      exact hreplace proto
  · obtain ⟨current', hcurrent, hT'⟩ := hcut T' hrun.toCut
    refine ⟨policyOf current', ⟨fun proto => ?_, ?_⟩, current', rfl, hT'⟩
    · rcases hcurrent proto with heq | heq
      · exact Or.inl (by funext family; simp [policyOf, heq])
      · exact Or.inr (by funext family; simp [policyOf, heq])
    · intro outcome ho
      exact absurd ⟨outcome, ho⟩ hdone

/-- After any runs of the script, complete or cut, on a chain whose drop rule is the only one that
is taken for it, the chain decides as the static rules do with a policy in front of the drop rule.
A complete run replaces the policy of a protocol by its elements where the chain was listed for it
and its batch was applied, and leaves it otherwise; a run that was cut does one or the other. -/
theorem updates_enforce {sha256 : String → String} {config : Config} (hshown : ShowsSet shown)
    (hsha : HexDigest sha256) {T₀ : Table} (h₀ : Initial shown drop T₀)
    (hlast : lastDrop shown T₀ = some drop)
    (hsets : ∀ proto family h, T₀.sets (setName proto family h) = none)
    {runs : List (Table × Attempt)}
    (hhash : NoCollision (elementsHash sha256) (runs.map fun r => r.2.1))
    (htrace : Trace (attempt shown sha256 config) T₀ runs T) :
    ∃ l P, Trace Policy.Step Policy.none l P ∧ l.map Prod.snd = runs.map Prod.snd ∧
      ∀ M p, T.verdict M p = P.verdict M config.interfaceMatch drop T₀ p := by
  obtain ⟨after, hafter⟩ := h₀.drop_next
  let before := T₀.chain.takeWhile fun r => r ≠ drop
  have hchain : T₀.chain = before ++ drop :: after := by
    rw [← hafter]
    exact List.takeWhile_append_dropWhile.symm
  have hstatic : ∀ r ∈ before ++ after, ∀ proto, mentions shown proto r = false := by
    intro r hr
    apply h₀.noDynamic
    rw [hchain]
    rcases List.mem_append.mp hr with hr | hr
    · exact List.mem_append_left _ hr
    · exact List.mem_append_right _ (List.mem_cons_of_mem _ hr)
  let R : Policy → Table → Prop := fun P T => ∃ current, P = policyOf current ∧
    Holds shown config.interfaceMatch (elementsHash sha256) drop before after
      (runs.map fun r => r.2.1) current T
  have hstart : R Policy.none T₀ := ⟨fun _ => none, rfl, h₀.holds hlast hsets hchain⟩
  have hstep : ∀ {U : Table} {a : Attempt} {U' : Table} {P : Policy}, (U, a) ∈ runs → R P U →
      attempt shown sha256 config U a U' → ∃ P', Policy.Step P a P' ∧ R P' U' := by
    intro U a U' P hmem ⟨current, hP, hU⟩ hrun
    have hE : a.1 ∈ runs.map fun r => r.2.1 := List.mem_map_of_mem hmem
    exact hP ▸ attempt_policy hshown hsha hE hstatic hU hrun
  obtain ⟨l, P, hl, hsame, current, rfl, hT⟩ := htrace.simulates hstart hstep
  exact ⟨l, _, hl, hsame, fun M p => hT.verdict h₀ rfl hafter hhash M p⟩

/-- Two updates of a fresh table: the address of the second one is the policy. -/
theorem updates_enforce_sample : ∃ T T',
    attempt listedRule sampleSha256 sampleConfig sampleTable
        (oneAddress "1.2.3.4", some (.ok printed)) T ∧
      attempt listedRule sampleSha256 sampleConfig T
        (oneAddress "5.6.7.8", some (.ok printed)) T' ∧
      ∀ M p, T'.verdict M p =
        Policy.verdict M "eth0" dropRule sampleTable (oneAddress "5.6.7.8") p := by
  obtain ⟨T, T', hrun, hrun', -, -⟩ := both_applied
  let runs : List (Table × Attempt) :=
    [(sampleTable, (oneAddress "1.2.3.4", some (.ok printed))),
      (T, (oneAddress "5.6.7.8", some (.ok printed)))]
  have htrace : Trace (attempt listedRule sampleSha256 sampleConfig) sampleTable runs T' :=
    .cons hrun (.cons hrun' (.nil T'))
  have hhash : NoCollision (elementsHash sampleSha256) (runs.map fun r => r.2.1) := by
    intro E hE E' hE' heq proto family e
    rcases List.mem_pair.mp hE with rfl | rfl <;> rcases List.mem_pair.mp hE' with rfl | rfl
    · rfl
    · exact absurd heq sampleHash_ne
    · exact absurd heq.symm sampleHash_ne
    · rfl
  obtain ⟨l, P, hl, hsame, hverdict⟩ := updates_enforce listedRule_showsSet hexDigest_sample
    sampleTable_initial sampleTable_last (fun _ _ _ => rfl) hhash htrace
  refine ⟨T, T', hrun, hrun', ?_⟩
  suffices hP : P = oneAddress "5.6.7.8" from hP ▸ hverdict
  have hlength : l.length = 2 := by simpa [runs] using congrArg List.length hsame
  obtain ⟨⟨Q, a⟩, ⟨Q', a'⟩, rfl⟩ := List.length_eq_two.mp hlength
  obtain ⟨rfl, rfl⟩ : a = (oneAddress "1.2.3.4", some (.ok printed)) ∧
      a' = (oneAddress "5.6.7.8", some (.ok printed)) := by simpa [runs] using hsame
  cases hl with
  | cons first rest =>
    cases rest with
    | cons second rest =>
      cases rest
      funext proto family
      rw [second.2 printed rfl proto]
      cases proto with
      | tcp => rfl
      | udp =>
        show Q' .udp family = _
        rw [first.2 printed rfl .udp]
        cases family <;> rfl

end Table

end Foundrix.NftablesDns
