import Mathlib.Data.List.Forall2
import Mathlib.Data.List.Nodup
import Mathlib.Logic.Function.Basic
import Foundrix.Effect.Reconcile
import Foundrix.ZitadelConfigure.Answers
import Foundrix.ZitadelConfigure.Configure

/-!
# Actions and their triggers

`convergeActions` of `services/zitadel-configure.ts` against a Zitadel that keeps actions under
names of their own and runs a list of them at each trigger. The client takes a creation that is
refused with the code 9 for one that gave no id.

* `Flows`, `flows`, `ActionsMade`: the actions, the lists, how the server answers, and where no
  creation is refused so.
* `convergeEachAction_spec`: what becomes of the actions.
* `lookup_groupTriggers`, `forEach_convergeTrigger`: the lists that are asked for, and set.
* `actions_wired`: a complete run, and the runs behind it.
-/

namespace Foundrix.ZitadelConfigure

open Text Effect

/-! ## The server -/

/-- The actions, and the ids of those that run at a trigger, by flow and trigger. -/
structure Flows where
  actions : List StoredAction
  ids : (actions.map fun a => a.id).Nodup
  names : (actions.map fun a => a.action.name).Nodup
  wired : String × String → List String

structure ActionCreated (action : Action) (id : Option String) (w w' : Flows) : Prop where
  actions : ∃ i, id = some i ∧ w'.actions = w.actions ++ [⟨i, action⟩]
  wired : w'.wired = w.wired

structure ActionUpdated (id : String) (action : Action) (w w' : Flows) : Prop where
  actions : w'.actions = w.actions.map fun a => if a.id = id then ⟨id, action⟩ else a
  wired : w'.wired = w.wired

structure TriggerSet (key : String × String) (actionIds : List String) (w w' : Flows) : Prop where
  actions : w'.actions = w.actions
  wired : w'.wired = Function.update w.wired key actionIds

/-- What a flow is told to run at a trigger. -/
def runsAt (flow : List TriggerActions) (triggerType : String) : List String :=
  ((flow.find? fun t => t.triggerType == triggerType).map TriggerActions.actionIds).getD []

def flowStep : {β : Type} → Op β → Flows → β → Flows → Prop
  | _, .inl .listActions, w, b, w' => Tells (fun l => l.Perm w.actions) b w w'
  | _, .inl (.createAction action), w, b, w' =>
    Changes (fun id w' => ActionCreated action id w w') b w w'
  | _, .inl (.updateAction id action), w, b, w' => Does (ActionUpdated id action) b w w'
  | _, .inl (.getFlow flowType), w, b, w' =>
    Tells (fun flow => ∀ t, runsAt flow t = w.wired (flowType, t)) b w w'
  | _, .inl (.setTriggerActions flowType triggerType actionIds), w, b, w' =>
    Does (TriggerSet (flowType, triggerType) actionIds) b w w'
  | _, _, _, _, _ => False

def flows : Handler Op Flows where
  step e w b w' := flowStep e w b w'

/-- No creation is refused with the code 9. -/
def ActionsMade : {β : Type} → Op β → β → Prop
  | _, .inl (.createAction _), b => ¬ b.Precondition
  | _, _, _ => True

/-! ## What is asked for -/

def ActionSpec.action (spec : ActionSpec) (name : String) : Action :=
  ⟨name, spec.script, spec.timeout, spec.allowedToFail⟩

/-- The ids of the flow and of the trigger. -/
def ActionTrigger.key (t : ActionTrigger) : String × String :=
  (shown (flowTypeIds.lookup t.flowType), shown (triggerTypeIds.lookup t.triggerType))

/-- The actions that are to run at a trigger, in the order in which they are given. -/
def named (actions : List (String × ActionSpec)) (key : String × String) : List String :=
  actions.flatMap fun a => (a.2.triggers.filter fun t => t.key = key).map fun _ => a.1

/-- The id is that of the action of this name. -/
def Flows.Calls (w : Flows) (id name : String) : Prop :=
  ∃ a ∈ w.actions, a.id = id ∧ a.action.name = name

/-- Every action is stored as it is given, and a trigger that one is given for runs those that are,
in their order. -/
structure Wired (actions : List (String × ActionSpec)) (w : Flows) : Prop where
  stored : ∀ p ∈ actions, ∃ a ∈ w.actions, a.action = p.2.action p.1
  runs : ∀ key, named actions key ≠ [] → List.Forall₂ w.Calls (w.wired key) (named actions key)

/-- Actions with other names and triggers that none is given for are what they were, and an action
that there was has its id. -/
structure Besides (actions : List (String × ActionSpec)) (w w' : Flows) : Prop where
  others : ∀ a, a.action.name ∉ actions.map Prod.fst → (a ∈ w'.actions ↔ a ∈ w.actions)
  ids : ∀ a ∈ w.actions, w'.Calls a.id a.action.name
  wired : ∀ key, named actions key = [] → w'.wired key = w.wired key

/-! ## The actions -/

variable {w w' : Flows} {actions : List (String × ActionSpec)} {existing : List StoredAction}

theorem Flows.eq_of_id {a b : StoredAction} (ha : a ∈ w.actions) (hb : b ∈ w.actions)
    (h : a.id = b.id) : a = b :=
  List.inj_on_of_nodup_map w.ids ha hb h

theorem Flows.eq_of_name {a b : StoredAction} (ha : a ∈ w.actions) (hb : b ∈ w.actions)
    (h : a.action.name = b.action.name) : a = b :=
  List.inj_on_of_nodup_map w.names ha hb h

/-- What becomes of the actions where one name is converged. -/
structure Turned (name : String) (w w' : Flows) : Prop where
  wired : w'.wired = w.wired
  others : ∀ a, a.action.name ≠ name → (a ∈ w'.actions ↔ a ∈ w.actions)
  ids : ∀ a ∈ w.actions, w'.Calls a.id a.action.name

theorem turned_refl (name : String) (w : Flows) : Turned name w w :=
  ⟨rfl, fun _ _ => Iff.rfl, fun a ha => ⟨a, ha, rfl, rfl⟩⟩

theorem ActionUpdated.turned {a : StoredAction} {action : Action} (ha : a ∈ w.actions)
    (hname : action.name = a.action.name) (h : ActionUpdated a.id action w w') :
    Turned action.name w w' ∧ ⟨a.id, action⟩ ∈ w'.actions := by
  have hmem : ⟨a.id, action⟩ ∈ w'.actions := by
    rw [h.actions]
    exact List.mem_map.mpr ⟨a, ha, if_pos rfl⟩
  refine ⟨⟨h.wired, fun b hb => ?_, fun b hb => ?_⟩, hmem⟩
  · rw [h.actions]
    constructor
    · intro hin
      obtain ⟨c, hc, rfl⟩ := List.mem_map.mp hin
      by_cases hid : c.id = a.id
      · rw [if_pos hid] at hb
        exact absurd rfl hb
      · rwa [if_neg hid]
    · intro hin
      refine List.mem_map.mpr ⟨b, hin, if_neg fun hid => hb ?_⟩
      rw [Flows.eq_of_id hin ha hid, hname]
  · by_cases hid : b.id = a.id
    · obtain rfl := Flows.eq_of_id hb ha hid
      exact ⟨_, hmem, rfl, hname⟩
    · refine ⟨b, ?_, rfl, rfl⟩
      rw [h.actions]
      exact List.mem_map.mpr ⟨b, hb, if_neg hid⟩

theorem ActionCreated.turned {action : Action} {id : Option String}
    (h : ActionCreated action id w w') :
    Turned action.name w w' ∧ ∃ i, id = some i ∧ ⟨i, action⟩ ∈ w'.actions := by
  obtain ⟨⟨i, rfl, hactions⟩, hwired⟩ := h
  refine ⟨⟨hwired, fun a ha => ?_, fun a ha => ⟨a, ?_, rfl, rfl⟩⟩, i, rfl, ?_⟩
  · rw [hactions, List.mem_append, List.mem_singleton]
    refine or_iff_left fun heq => ha ?_
    rw [heq]
  · rw [hactions]
    exact List.mem_append_left _ ha
  · rw [hactions]
    exact List.mem_append_right _ List.mem_cons_self

/-- An action that is there is updated where it differs. -/
theorem convergeAction_found {name : String} {spec : ActionSpec} {found : StoredAction}
    (hfind : (existing.find? fun a => a.action.name == name) = some found) :
    convergeAction existing name spec =
      if found.action = spec.action name then .pure (some found.id)
      else (request (.updateAction found.id (spec.action name))).bind fun _ =>
        .pure (some found.id) := by
  unfold convergeAction
  rw [hfind]
  by_cases hsame : found.action = spec.action name
  · rw [if_pos hsame]
    exact if_neg (not_not.mpr hsame)
  · rw [if_neg hsame]
    exact if_pos hsame

theorem convergeAction_spec {name : String} {spec : ActionSpec}
    (hexisting : ∀ a ∈ existing, a.action.name = name → a ∈ w.actions) :
    wpOk (flows.restrict ActionsMade) (fun _ => True) (convergeAction existing name spec)
      (fun id w' => Turned name w w' ∧ ∃ i, id = some i ∧ ⟨i, spec.action name⟩ ∈ w'.actions)
      w := by
  cases hfind : existing.find? fun a => a.action.name == name with
  | none =>
    unfold convergeAction
    rw [hfind]
    apply request_spec trivial fun _ _ _ => trivial
    intro b a w' ⟨hchanges, hpre⟩ hb
    rcases hb with rfl | ⟨hb, -⟩
    · have hturned := ActionCreated.turned hchanges
      exact hturned
    · exact absurd hb hpre
  | some found =>
    rw [convergeAction_found hfind]
    have hname : found.action.name = name := by simpa using List.find?_some hfind
    have hmem := hexisting found (List.mem_of_find?_eq_some hfind) hname
    by_cases hsame : found.action = spec.action name
    · rw [if_pos hsame]
      exact wpOk_pure trivial ⟨turned_refl name w, found.id, rfl, hsame ▸ hmem⟩
    · rw [if_neg hsame]
      have hupdate : wpOk (flows.restrict ActionsMade) (fun _ => True)
          (request (.updateAction found.id (spec.action name)))
          (fun _ w' => ActionUpdated found.id (spec.action name) w w') w :=
        request_spec trivial (fun _ _ _ => trivial) fun b _ w' hs hb =>
          Does.effect hs.1 (hb.imp_right And.left)
      refine wpOk_seq hupdate fun _ w' _ hupdated => wpOk_pure trivial ?_
      obtain ⟨hturned, hin⟩ := hupdated.turned hmem hname.symm
      exact ⟨hturned, found.id, rfl, hin⟩

/-- Each action is stored under the id that was found for it. -/
def Located (actions : List (String × ActionSpec)) (ids : List (String × Option String))
    (w : Flows) : Prop :=
  ∀ p ∈ actions, ∃ i, ids.lookup p.1 = some (some i) ∧ ⟨i, p.2.action p.1⟩ ∈ w.actions

theorem Located.cons {name : String} {spec : ActionSpec} {i : String}
    {ids : List (String × Option String)} (hnew : name ∉ actions.map Prod.fst)
    (hi : ⟨i, spec.action name⟩ ∈ w.actions) (h : Located actions ids w) :
    Located ((name, spec) :: actions) ((name, some i) :: ids) w := by
  intro p hp
  rcases List.mem_cons.mp hp with rfl | hp
  · exact ⟨i, List.lookup_cons_self, hi⟩
  · obtain ⟨j, hj, hin⟩ := h p hp
    refine ⟨j, ?_, hin⟩
    have hne : p.1 ≠ name := by
      rintro heq
      exact hnew (heq ▸ List.mem_map.mpr ⟨p, hp, rfl⟩)
    rw [List.lookup_cons, beq_false_of_ne hne]
    exact hj

/-- What becomes of the actions where some names are converged. -/
structure Stored (actions : List (String × ActionSpec)) (ids : List (String × Option String))
    (w w' : Flows) : Prop where
  wired : w'.wired = w.wired
  others : ∀ a, a.action.name ∉ actions.map Prod.fst → (a ∈ w'.actions ↔ a ∈ w.actions)
  kept : ∀ a ∈ w.actions, w'.Calls a.id a.action.name
  stored : Located actions ids w'

theorem convergeEachAction_spec (hnames : (actions.map Prod.fst).Nodup)
    (hexisting : ∀ a ∈ existing, a.action.name ∈ actions.map Prod.fst → a ∈ w.actions) :
    wpOk (flows.restrict ActionsMade) (fun _ => True) (convergeEachAction existing actions)
      (fun ids w' => Stored actions ids w w') w := by
  induction actions generalizing w with
  | nil =>
    refine wpOk_pure trivial ⟨rfl, fun _ _ => Iff.rfl, fun a ha => ⟨a, ha, rfl, rfl⟩, ?_⟩
    exact fun p hp => absurd hp List.not_mem_nil
  | cons action actions ih =>
    obtain ⟨name, spec⟩ := action
    obtain ⟨hnew, hnames⟩ := List.nodup_cons.mp hnames
    have hhead : ∀ a ∈ existing, a.action.name = name → a ∈ w.actions := fun a ha hname =>
      hexisting a ha (hname ▸ List.mem_cons_self)
    refine wpOk_seq (convergeAction_spec hhead) fun id v _ ⟨hturned, i, hid, hi⟩ => ?_
    subst hid
    have hrest : ∀ a ∈ existing, a.action.name ∈ actions.map Prod.fst → a ∈ v.actions := by
      intro a ha hmem
      refine (hturned.others a ?_).mpr (hexisting a ha (List.mem_cons_of_mem _ hmem))
      rintro rfl
      exact hnew hmem
    refine wpOk_seq (ih hnames hrest) fun ids w' _ hstored => wpOk_pure trivial ?_
    refine ⟨hstored.wired.trans hturned.wired, fun a ha => ?_, fun a ha => ?_,
      hstored.stored.cons hnew ((hstored.others _ hnew).mpr hi)⟩
    · rw [List.map_cons, List.mem_cons, not_or] at ha
      exact (hstored.others a ha.2).trans (hturned.others a ha.1)
    · obtain ⟨b, hb, hid, hname⟩ := hturned.ids a ha
      rw [← hid, ← hname]
      exact hstored.kept b hb

/-! ## The triggers -/

/-- The ids that a trigger is to run. -/
def wanted (ids : List (String × Option String)) (actions : List (String × ActionSpec))
    (key : String × String) : List String :=
  (named actions key).map fun name => shown (ids.lookup name).join

theorem lookup_map_append (triggers : List ((String × String) × List String))
    (key k : String × String) (id : String) :
    (triggers.map fun t => if t.1 = key then (key, t.2 ++ [id]) else t).lookup k =
      if k = key then (triggers.lookup k).map (· ++ [id]) else triggers.lookup k := by
  induction triggers with
  | nil => simp
  | cons t triggers ih =>
    obtain ⟨k', l⟩ := t
    rw [List.map_cons]
    by_cases hk' : k' = key
    · subst hk'
      by_cases hk : k = k'
      · simp [hk]
      · simp only [if_true, List.lookup_cons, beq_false_of_ne hk, ih]
    · rw [if_neg hk', List.lookup_cons, List.lookup_cons, ih]
      by_cases hk : k = k'
      · subst hk
        simp [hk']
      · rw [beq_false_of_ne hk]

theorem lookup_addTrigger (triggers : List ((String × String) × List String))
    (key k : String × String) (id : String) :
    (addTrigger triggers key id).lookup k =
      if k = key then some ((triggers.lookup k).getD [] ++ [id]) else triggers.lookup k := by
  unfold addTrigger
  by_cases hany : (triggers.any fun t => t.1 == key) = true
  · rw [if_pos hany, lookup_map_append]
    by_cases hk : k = key
    · obtain ⟨t, ht, hkey⟩ := List.any_eq_true.mp hany
      have hsome : (triggers.lookup k).isSome = true :=
        List.lookup_isSome_iff.mpr ⟨t, ht, by rw [hk, beq_iff_eq.mp hkey, beq_self_eq_true]⟩
      obtain ⟨l, hl⟩ := Option.isSome_iff_exists.mp hsome
      rw [if_pos hk, if_pos hk, hl, Option.map_some, Option.getD_some]
    · rw [if_neg hk, if_neg hk]
  · rw [if_neg hany, List.lookup_append]
    by_cases hk : k = key
    · have hnone : triggers.lookup k = none := by
        rw [List.lookup_eq_none_iff]
        intro t ht
        rw [hk, bne_iff_ne]
        exact fun heq => hany (List.any_eq_true.mpr ⟨t, ht, beq_iff_eq.mpr heq.symm⟩)
      rw [if_pos hk, hnone, hk, List.lookup_cons_self]
      rfl
    · rw [if_neg hk, List.lookup_cons, beq_false_of_ne hk, List.lookup_nil, Option.or_none]

theorem keys_addTrigger (triggers : List ((String × String) × List String))
    (key : String × String) (id : String) (h : (triggers.map Prod.fst).Nodup) :
    ((addTrigger triggers key id).map Prod.fst).Nodup := by
  unfold addTrigger
  by_cases hany : (triggers.any fun t => t.1 == key) = true
  · have hkeys : (triggers.map fun t => if t.1 = key then (key, t.2 ++ [id]) else t).map Prod.fst =
        triggers.map Prod.fst := by
      rw [List.map_map]
      apply List.map_congr_left
      intro t _
      by_cases ht : t.1 = key
      · simp [ht]
      · simp [ht]
    rw [if_pos hany, hkeys]
    exact h
  · rw [if_neg hany, List.map_append, List.map_singleton]
    refine h.append (List.nodup_singleton key) ?_
    rw [List.disjoint_singleton]
    intro hmem
    obtain ⟨t, ht, heq⟩ := List.mem_map.mp hmem
    exact hany (List.any_eq_true.mpr ⟨t, ht, beq_iff_eq.mpr heq⟩)

/-- The triggers of the actions, one by one, each with the id of its action. -/
def asks (ids : List (String × Option String)) (actions : List (String × ActionSpec)) :
    List ((String × String) × String) :=
  actions.flatMap fun a => a.2.triggers.map fun t => (t.key, shown (ids.lookup a.1).join)

theorem groupTriggers_eq (ids : List (String × Option String))
    (actions : List (String × ActionSpec)) :
    groupTriggers ids actions =
      (asks ids actions).foldl (fun triggers p => addTrigger triggers p.1 p.2) [] := by
  unfold groupTriggers asks
  rw [List.foldl_flatMap]
  simp only [List.foldl_map]
  rfl

theorem asks_filter (ids : List (String × Option String)) (actions : List (String × ActionSpec))
    (key : String × String) :
    ((asks ids actions).filter fun p => p.1 = key).map Prod.snd = wanted ids actions key := by
  unfold asks wanted named
  rw [List.filter_flatMap, List.map_flatMap, List.map_flatMap]
  congr 1
  funext a
  rw [List.filter_map, List.map_map, List.map_map]
  rfl

theorem lookup_foldl_addTrigger (pairs : List ((String × String) × String)) (key : String × String)
    (triggers : List ((String × String) × List String)) :
    (pairs.foldl (fun triggers p => addTrigger triggers p.1 p.2) triggers).lookup key =
      if (pairs.filter fun p => p.1 = key) = [] then triggers.lookup key
      else some ((triggers.lookup key).getD [] ++
        (pairs.filter fun p => p.1 = key).map Prod.snd) := by
  induction pairs generalizing triggers with
  | nil => simp
  | cons p pairs ih =>
    rw [List.foldl_cons, ih, lookup_addTrigger, List.filter_cons]
    by_cases hp : p.1 = key
    · simp only [hp, if_true, decide_true, Option.getD_some, List.map_cons, List.append_assoc,
        List.singleton_append]
      split
      · rename_i hnil
        simp [hnil]
      · simp
    · simp only [decide_eq_false hp, Bool.false_eq_true, if_false, if_neg (Ne.symm hp)]

theorem lookup_groupTriggers (ids : List (String × Option String))
    (actions : List (String × ActionSpec)) (key : String × String) :
    (groupTriggers ids actions).lookup key =
      if named actions key = [] then none else some (wanted ids actions key) := by
  have hempty : (asks ids actions).filter (fun p => p.1 = key) = [] ↔ named actions key = [] := by
    rw [← List.map_eq_nil_iff (f := Prod.snd), asks_filter, wanted, List.map_eq_nil_iff]
  rw [groupTriggers_eq, lookup_foldl_addTrigger, asks_filter]
  simp only [hempty, List.lookup_nil, Option.getD_none, List.nil_append]

theorem keys_groupTriggers (ids : List (String × Option String))
    (actions : List (String × ActionSpec)) : ((groupTriggers ids actions).map Prod.fst).Nodup := by
  rw [groupTriggers_eq]
  generalize asks ids actions = pairs
  have hkeys : ∀ triggers : List ((String × String) × List String),
      (triggers.map Prod.fst).Nodup →
      ((pairs.foldl (fun triggers p => addTrigger triggers p.1 p.2) triggers).map
        Prod.fst).Nodup := by
    induction pairs with
    | nil => exact fun _ h => h
    | cons p pairs ih => exact fun triggers h => ih _ (keys_addTrigger triggers p.1 p.2 h)
  exact hkeys [] List.nodup_nil

/-- A trigger is set where it runs something else. -/
theorem convergeTrigger_spec (key : String × String) (actionIds : List String) :
    wpOk flows (fun w' => w.wired key = actionIds → w' = w) (convergeTrigger (key, actionIds))
      (fun _ w' => TriggerSet key actionIds w w') w := by
  obtain ⟨flowId, triggerId⟩ := key
  have hflow : wpOk flows (fun w' => w' = w) (request (.getFlow flowId))
      (fun flow _ => runsAt flow triggerId = w.wired (flowId, triggerId)) w :=
    request_spec rfl (fun _ _ hs => hs.2.1) fun b flow _ hs hb => by
      rcases hb with rfl | ⟨hb, -⟩
      · exact hs.2.2 flow rfl triggerId
      · exact absurd hb hs.1
  refine wpOk_seq_within hflow (fun _ h _ => h) fun flow v hv hruns => ?_
  subst hv
  show wpOk flows _ (if actionIds ≠ runsAt flow triggerId then
    request (.setTriggerActions flowId triggerId actionIds) else .pure ()) _ _
  rw [hruns]
  by_cases hsame : actionIds = v.wired (flowId, triggerId)
  · rw [if_neg (not_not.mpr hsame)]
    refine wpOk_pure (fun _ => rfl) ⟨rfl, ?_⟩
    rw [hsame, Function.update_eq_self]
  · rw [if_pos hsame]
    refine request_spec (fun _ => rfl) (fun _ _ _ h => absurd h.symm hsame) fun b _ w' hs hb => ?_
    exact Does.effect hs (hb.imp_right And.left)

theorem triggers_set (triggers : List ((String × String) × List String))
    (hkeys : (triggers.map Prod.fst).Nodup) :
    wpOk flows (fun _ => True) (forEach triggers convergeTrigger)
      (fun _ w' => w'.actions = w.actions ∧
        ∀ key, w'.wired key = (triggers.lookup key).getD (w.wired key)) w := by
  induction triggers generalizing w with
  | nil => exact wpOk_pure trivial ⟨rfl, fun _ => rfl⟩
  | cons trigger triggers ih =>
    obtain ⟨key, actionIds⟩ := trigger
    obtain ⟨hnew, hkeys⟩ := List.nodup_cons.mp hkeys
    have hfirst := wp_always_mono (convergeTrigger_spec (w := w) key actionIds) fun _ _ => trivial
    refine wpOk_seq hfirst fun _ v _ hset => ?_
    refine wpOk_mono (ih hkeys) fun _ w' _ hrest => ⟨hrest.1.trans hset.actions, fun k => ?_⟩
    rw [hrest.2 k, hset.wired, List.lookup_cons]
    by_cases hk : k = key
    · subst hk
      have hnone : triggers.lookup k = none := by
        rw [List.lookup_eq_none_iff]
        intro t ht
        rw [bne_iff_ne]
        exact fun heq => hnew (List.mem_map.mpr ⟨t, ht, heq.symm⟩)
      rw [hnone, Function.update_self, beq_self_eq_true]
      rfl
    · rw [Function.update_of_ne hk, beq_false_of_ne hk]

theorem lookup_of_mem {triggers : List ((String × String) × List String)}
    (hkeys : (triggers.map Prod.fst).Nodup) {t : (String × String) × List String}
    (ht : t ∈ triggers) : triggers.lookup t.1 = some t.2 := by
  have hsome : (triggers.lookup t.1).isSome = true :=
    List.lookup_isSome_iff.mpr ⟨t, ht, beq_self_eq_true _⟩
  obtain ⟨l, hl⟩ := Option.isSome_iff_exists.mp hsome
  obtain ⟨before, after, hlist, -⟩ := List.lookup_eq_some_iff.mp hl
  have hmem : (t.1, l) ∈ triggers := by
    rw [hlist]
    exact List.mem_append_right _ List.mem_cons_self
  have heq : (t.1, l) = t := List.inj_on_of_nodup_map hkeys hmem ht rfl
  rw [hl, ← heq]

/-! ## Complete runs -/

theorem named_mem {key : String × String} {name : String} (h : name ∈ named actions key) :
    ∃ p ∈ actions, p.1 = name := by
  obtain ⟨p, hp, hname⟩ := List.mem_flatMap.mp h
  obtain ⟨t, -, rfl⟩ := List.mem_map.mp hname
  exact ⟨p, hp, rfl⟩

/-- The ids that were found are those of the actions of these names. -/
theorem Located.calls {ids : List (String × Option String)} (hlocated : Located actions ids w)
    {key : String × String} {name : String} (h : name ∈ named actions key) :
    w.Calls (shown (ids.lookup name).join) name := by
  obtain ⟨p, hp, rfl⟩ := named_mem h
  obtain ⟨i, hi, hin⟩ := hlocated p hp
  rw [hi]
  exact ⟨_, hin, rfl, rfl⟩

theorem Flows.Calls.unique {id id' name : String} (h : w.Calls id name) (h' : w.Calls id' name) :
    id = id' := by
  obtain ⟨a, ha, rfl, rfl⟩ := h
  obtain ⟨b, hb, rfl, hname⟩ := h'
  rw [Flows.eq_of_name hb ha hname]

theorem convergeActions_spec (hnames : (actions.map Prod.fst).Nodup) :
    wpOk (flows.restrict ActionsMade) (fun _ => True) (convergeActions actions)
      (fun _ w' => Wired actions w' ∧ Besides actions w w') w := by
  unfold convergeActions
  by_cases hempty : actions = []
  · subst hempty
    refine wpOk_pure trivial ⟨⟨fun p hp => absurd hp List.not_mem_nil, fun key h => ?_⟩, ?_⟩
    · exact absurd rfl h
    · exact ⟨fun _ _ => Iff.rfl, fun a ha => ⟨a, ha, rfl, rfl⟩, fun _ _ => rfl⟩
  rw [if_neg hempty]
  have hlist : wpOk (flows.restrict ActionsMade) (fun _ => True) (request .listActions)
      (fun existing w' => w' = w ∧ existing.Perm w.actions) w :=
    request_spec trivial (fun _ _ _ => trivial) fun b existing w' ⟨hs, _⟩ hb => by
      rcases hb with rfl | ⟨hb, -⟩
      · exact ⟨hs.2.1, hs.2.2 existing rfl⟩
      · exact absurd hb hs.1
  refine wpOk_seq hlist fun existing v _ ⟨hv, hperm⟩ => ?_
  subst hv
  refine wpOk_seq (convergeEachAction_spec hnames fun a ha _ => hperm.mem_iff.mp ha)
    fun ids u _ hstored => ?_
  refine wpOk_mono (wp_restrict (triggers_set _ (keys_groupTriggers ids actions)))
    fun _ w' _ hset => ?_
  obtain ⟨hactions, hwired⟩ := hset
  simp only [lookup_groupTriggers] at hwired
  have hcalls : ∀ id name, u.Calls id name → w'.Calls id name := by
    rintro id name ⟨a, ha, hid, hname⟩
    exact ⟨a, hactions ▸ ha, hid, hname⟩
  refine ⟨⟨fun p hp => ?_, fun key hkey => ?_⟩, fun a ha => ?_, fun a ha => ?_, fun key hkey => ?_⟩
  · obtain ⟨i, -, hin⟩ := hstored.stored p hp
    exact ⟨_, hactions ▸ hin, rfl⟩
  · rw [hwired, if_neg hkey, Option.getD_some, wanted, List.forall₂_map_left_iff,
      List.forall₂_same]
    exact fun name hname => hcalls _ _ (hstored.stored.calls hname)
  · rw [hactions]
    exact hstored.others a ha
  · exact hcalls _ _ (hstored.kept a ha)
  · rw [hwired, if_pos hkey, Option.getD_none, hstored.wired]

/-! ## Where everything is there -/

theorem convergeEachAction_idle (hnames : (actions.map Prod.fst).Nodup)
    (hperm : existing.Perm w.actions)
    (hstored : ∀ p ∈ actions, ∃ a ∈ w.actions, a.action = p.2.action p.1) :
    wpOk flows (fun w' => w' = w) (convergeEachAction existing actions)
      (fun ids _ => Located actions ids w) w := by
  induction actions with
  | nil => exact wpOk_pure rfl fun p hp => absurd hp List.not_mem_nil
  | cons action actions ih =>
    obtain ⟨name, spec⟩ := action
    obtain ⟨hnew, hnames⟩ := List.nodup_cons.mp hnames
    obtain ⟨a, ha, haction⟩ := hstored (name, spec) List.mem_cons_self
    have hname : a.action.name = name := by rw [haction]; rfl
    have hsome : (existing.find? fun a => a.action.name == name).isSome = true :=
      List.find?_isSome.mpr ⟨a, hperm.mem_iff.mpr ha, beq_iff_eq.mpr hname⟩
    obtain ⟨found, hfind⟩ := Option.isSome_iff_exists.mp hsome
    have hfound : found.action.name = name := by simpa using List.find?_some hfind
    have hin := hperm.mem_iff.mp (List.mem_of_find?_eq_some hfind)
    obtain rfl := Flows.eq_of_name hin ha (hfound.trans hname.symm)
    have hfirst : convergeAction existing name spec = .pure (some found.id) := by
      rw [convergeAction_found hfind, if_pos haction]
    rw [convergeEachAction, hfirst]
    have hrest := ih hnames fun p hp => hstored p (List.mem_cons_of_mem _ hp)
    show wpOk flows _ ((convergeEachAction existing actions).bind fun ids =>
      .pure ((name, some found.id) :: ids)) _ w
    exact wpOk_seq hrest fun ids v hv hlocated =>
      wpOk_pure hv (hlocated.cons hnew (haction ▸ hin))

theorem eq_map_of_forall₂ {α β : Type} {R : α → β → Prop} {f : β → α} {l : List α} {l' : List β}
    (h : List.Forall₂ R l l') (hunique : ∀ b ∈ l', ∀ a, R a b → a = f b) : l = l'.map f := by
  induction h with
  | nil => rfl
  | cons hab _ ih =>
    rw [List.map_cons, hunique _ List.mem_cons_self _ hab,
      ih fun b hb => hunique b (List.mem_cons_of_mem _ hb)]

theorem convergeActions_idle (hnames : (actions.map Prod.fst).Nodup) (hw : Wired actions w) :
    wpOk flows (fun w' => w' = w) (convergeActions actions) (fun _ _ => True) w := by
  unfold convergeActions
  by_cases hempty : actions = []
  · rw [if_pos hempty]
    exact wpOk_pure rfl trivial
  rw [if_neg hempty]
  have hlist : wpOk flows (fun w' => w' = w) (request .listActions)
      (fun existing _ => existing.Perm w.actions) w :=
    request_spec rfl (fun _ _ hs => hs.2.1) fun b existing w' hs hb => by
      rcases hb with rfl | ⟨hb, -⟩
      · exact hs.2.2 existing rfl
      · exact absurd hb hs.1
  refine wpOk_seq hlist fun existing v hv hperm => ?_
  subst hv
  refine wpOk_seq (convergeEachAction_idle hnames hperm hw.stored) fun ids u hu hlocated => ?_
  subst hu
  rw [forEach_eq]
  apply idle_forM
  rintro ⟨key, actionIds⟩ ht
  have hlookup := lookup_of_mem (keys_groupTriggers ids actions) ht
  rw [lookup_groupTriggers] at hlookup
  by_cases hkey : named actions key = []
  · rw [if_pos hkey] at hlookup
    cases hlookup
  rw [if_neg hkey] at hlookup
  have hruns : u.wired key = actionIds := by
    obtain rfl : wanted ids actions key = actionIds := Option.some.inj hlookup
    exact eq_map_of_forall₂ (hw.runs key hkey) fun name hname id hcalls =>
      hcalls.unique (hlocated.calls hname)
  exact wp_always_mono (wpOk_mono (convergeTrigger_spec key actionIds) fun _ _ _ _ => trivial)
    fun _ h => h hruns

/-- Whatever was there, a run that completes without a creation that is refused with the code 9 stores
every action as it is given and has each trigger run the actions that name it, in the order in which
they are given; it keeps the ids of the actions, and leaves other actions and triggers as they were.
Every later run, however it ends and wherever it is cut, then changes nothing. -/
theorem actions_wired (hnames : (actions.map Prod.fst).Nodup)
    (hrun : Run (flows.restrict ActionsMade) (convergeActions actions) w (some (.ok ())) w') :
    Wired actions w' ∧ Besides actions w w' ∧
      ∀ o w'', Run flows (convergeActions actions) w' o w'' → w'' = w' := by
  obtain ⟨hwired, hbesides⟩ := (convergeActions_spec hnames).2 _ w' hrun () rfl
  have hidle := convergeActions_idle hnames hwired
  exact ⟨hwired, hbesides, fun o w'' hagain => hidle.1 _ hagain.toCut⟩

/-! ## A server that can be run -/

structure FlowBench where
  actions : List StoredAction
  ids : (actions.map fun a => a.id).Nodup
  names : (actions.map fun a => a.action.name).Nodup
  wired : List ((String × String) × List String)

namespace FlowBench

def flows (b : FlowBench) : Flows where
  actions := b.actions
  ids := b.ids
  names := b.names
  wired key := (b.wired.lookup key).getD []

/-- It refuses what gives two actions one id or one name. -/
def put (b : FlowBench) (actions : List StoredAction) : Option FlowBench :=
  if h : (actions.map fun a => a.id).Nodup ∧ (actions.map fun a => a.action.name).Nodup then
    some ⟨actions, h.1, h.2, b.wired⟩
  else none

def answer : {β : Type} → Op β → FlowBench → Option (β × FlowBench)
  | _, .inl .listActions, b => some (.ok b.actions, b)
  | _, .inl (.createAction action), b =>
    let id := toString b.actions.length
    (b.put (b.actions ++ [⟨id, action⟩])).map fun b' => (.ok (some id), b')
  | _, .inl (.updateAction id action), b =>
    (b.put (b.actions.map fun a => if a.id = id then ⟨id, action⟩ else a)).map
      fun b' => (.ok (), b')
  | _, .inl (.getFlow flowType), b =>
    some (.ok ((b.wired.filter fun e => e.1.1 = flowType).map fun e => ⟨e.1.2, e.2⟩), b)
  | _, .inl (.setTriggerActions flowType triggerType actionIds), b =>
    some (.ok (), { b with wired := ((flowType, triggerType), actionIds) :: b.wired })
  | _, _, _ => none

variable {b b' : FlowBench}

theorem put_flows {actions : List StoredAction} (h : b.put actions = some b') :
    b'.flows.actions = actions ∧ b'.flows.wired = b.flows.wired := by
  unfold put at h
  split at h
  · cases h
    exact ⟨rfl, rfl⟩
  · cases h

theorem runsAt_filter (wired : List ((String × String) × List String)) (flowType t : String) :
    runsAt ((wired.filter fun e => e.1.1 = flowType).map fun e => ⟨e.1.2, e.2⟩) t =
      (wired.lookup (flowType, t)).getD [] := by
  unfold runsAt
  induction wired with
  | nil => rfl
  | cons e wired ih =>
    obtain ⟨⟨f, t'⟩, l⟩ := e
    rw [List.filter_cons, List.lookup_cons]
    by_cases hf : f = flowType
    · subst hf
      by_cases ht : t' = t
      · subst ht
        simp
      · have hne : ((f, t) == (f, t')) = false := by simpa using Ne.symm ht
        have hne' : (t' == t) = false := by simpa using ht
        rw [hne, ← ih]
        simp [hne']
    · have hne : ((flowType, t) == (f, t')) = false := by
        simp [Ne.symm hf]
      rw [hne, ← ih]
      simp [hf]

theorem answer_step {β : Type} {e : Op β} {a : β} (h : answer e b = some (a, b')) :
    (Handler.restrict Foundrix.ZitadelConfigure.flows ActionsMade).step e b.flows a b'.flows := by
  rcases e with c | f
  · cases c with
    | listActions =>
      cases h
      exact ⟨⟨id, rfl, fun l hl => Answer.ok.inj hl ▸ List.Perm.refl _⟩, trivial⟩
    | createAction action =>
      obtain ⟨b'', hput, heq⟩ := Option.map_eq_some_iff.mp h
      cases heq
      obtain ⟨hactions, hwired⟩ := put_flows hput
      exact ⟨⟨⟨_, rfl, hactions⟩, hwired⟩, id⟩
    | updateAction id action =>
      obtain ⟨b'', hput, heq⟩ := Option.map_eq_some_iff.mp h
      cases heq
      obtain ⟨hactions, hwired⟩ := put_flows hput
      exact ⟨⟨⟨hactions, hwired⟩, False.elim⟩, trivial⟩
    | getFlow flowType =>
      cases h
      refine ⟨⟨id, rfl, fun l hl t => ?_⟩, trivial⟩
      obtain rfl := Answer.ok.inj hl
      exact runsAt_filter b.wired flowType t
    | setTriggerActions flowType triggerType actionIds =>
      cases h
      refine ⟨⟨⟨rfl, ?_⟩, False.elim⟩, trivial⟩
      funext key
      by_cases hkey : key = (flowType, triggerType)
      · subst hkey
        rw [Function.update_self]
        simp [flows]
      · rw [Function.update_of_ne hkey]
        simp only [flows, List.lookup_cons, beq_false_of_ne hkey]
    | _ => cases h
  · cases f <;> cases h

end FlowBench

def flowOracle : Oracle Op FlowBench where
  answer e b := FlowBench.answer e b

theorem flowOracle_run (actions : List (String × ActionSpec)) (b : FlowBench) :
    Run (flows.restrict ActionsMade) (convergeActions actions) b.flows
      ((convergeActions actions).exec flowOracle 40 b).1
      ((convergeActions actions).exec flowOracle 40 b).2.flows := by
  let H : Handler Op FlowBench := ⟨fun e b a b' => flowOracle.answer e b = some (a, b')⟩
  have hrun : Run H (convergeActions actions) b ((convergeActions actions).exec flowOracle 40 b).1
      ((convergeActions actions).exec flowOracle 40 b).2 := exec_run (fun _ _ _ _ h => h) _ _ _
  exact hrun.map fun _ _ _ _ h => FlowBench.answer_step h

/-- Two actions, of which both run at one trigger. -/
def twoActions : List (String × ActionSpec) :=
  [("flatRoles", ⟨"function flatRoles(ctx, api) {}",
      [⟨"complementToken", "preUserinfoCreation"⟩, ⟨"complementToken", "preAccessTokenCreation"⟩],
      "10s", false⟩),
    ("username", ⟨"function username(ctx, api) {}",
      [⟨"complementToken", "preUserinfoCreation"⟩], "10s", true⟩)]

/-- The second one is there with another script, beside an action of the operator's. -/
def olderActions : FlowBench where
  actions := [⟨"77", ⟨"username", "", "5s", true⟩⟩, ⟨"78", ⟨"greeting", "", "5s", true⟩⟩]
  ids := by decide
  names := by decide
  wired := [(("2", "4"), ["77"]), (("1", "1"), ["78"])]

theorem actions_wired_sample : ∃ w',
    Run (flows.restrict ActionsMade) (convergeActions twoActions) olderActions.flows (some (.ok ())) w' ∧
      w'.wired ("2", "4") = ["2", "77"] ∧ w'.wired ("1", "1") = ["78"] ∧ Wired twoActions w' ∧
      Besides twoActions olderActions.flows w' ∧
      ∀ o w'', Run flows (convergeActions twoActions) w' o w'' → w'' = w' := by
  have hrun := flowOracle_run twoActions olderActions
  have hcomplete : ((convergeActions twoActions).exec flowOracle 40 olderActions).1 =
      some (.ok ()) := by
    decide +kernel
  have hset :
      ((convergeActions twoActions).exec flowOracle 40 olderActions).2.flows.wired ("2", "4") =
        ["2", "77"] ∧
      ((convergeActions twoActions).exec flowOracle 40 olderActions).2.flows.wired ("1", "1") =
        ["78"] := by
    decide +kernel
  rw [hcomplete] at hrun
  have hnames : (twoActions.map Prod.fst).Nodup := by decide
  obtain ⟨hwired, hbesides, hidle⟩ := actions_wired hnames hrun
  exact ⟨_, hrun, hset.1, hset.2, hwired, hbesides, hidle⟩

/-- A creation that is refused with the code 9 leaves the action out, and the run completes. -/
theorem creation_swallowed : ∃ w actions w', (actions.map Prod.fst).Nodup ∧
    Run flows (convergeActions actions) w (some (.ok ())) w' ∧ ¬ Wired actions w' := by
  let w : Flows := ⟨[], by decide, by decide, fun _ => []⟩
  let actions : List (String × ActionSpec) := [("greeting", ⟨"", [], "5s", true⟩)]
  have hlisted : flows.step (.inl .listActions) w (.ok []) w :=
    ⟨id, rfl, fun l hl => Answer.ok.inj hl ▸ List.Perm.refl _⟩
  have hrefused : flows.step (.inl (.createAction ⟨"greeting", "", "5s", true⟩)) w
      (.refused 400 "\"code\":9") w := Or.inl rfl
  refine ⟨w, actions, w, by decide, ?_, fun hwired => ?_⟩
  · exact .op hlisted (.op hrefused (.pure () w))
  · obtain ⟨a, ha, -⟩ := hwired.stored _ List.mem_cons_self
    cases ha

end Foundrix.ZitadelConfigure
