import Foundrix.ZitadelConfigure.Answers
import Foundrix.ZitadelConfigure.Orgs
import Mathlib.Data.Fintype.EquivFin
import Mathlib.Data.List.Nodup

/-!
# Roles for a named account

`convergeUserGrant` of `services/zitadel-configure.ts` against a Zitadel that lists the accounts
in any order. The name of an account may carry a domain or not, and the first account that goes
by the name, in either spelling, is granted the roles.

* `Accounts`, `granting`: accounts and their grants, and the answers that are no refusals.
* `run_convergeUserGrant`: a call that ends well, as one step.
* `GrantsNamed`: the named account is granted the roles, and no other, once and for all.
* `grants_named_iff`: when that is so.
-/

namespace Foundrix.ZitadelConfigure

open Text Effect

/-! ## Accounts and grants -/

structure ServerGrant where
  id : String
  project : Option String
  roleKeys : List String
deriving DecidableEq, Repr

/-- What a search shows of a grant. -/
def ServerGrant.shown (g : ServerGrant) : UserGrant := ⟨g.id, g.roleKeys⟩

def ServerGrant.withRoles (id : String) (roleKeys : List String) (g : ServerGrant) :
    ServerGrant :=
  if g.id = id then { g with roleKeys } else g

@[simp] theorem ServerGrant.withRoles_id (id : String) (roleKeys : List String)
    (g : ServerGrant) : (g.withRoles id roleKeys).id = g.id := by
  unfold ServerGrant.withRoles
  split <;> rfl

@[simp] theorem ServerGrant.withRoles_project (id : String) (roleKeys : List String)
    (g : ServerGrant) : (g.withRoles id roleKeys).project = g.project := by
  unfold ServerGrant.withRoles
  split <;> rfl

/-- The grants of an account, of which each has an id of its own. -/
structure Grants where
  list : List ServerGrant := []
  unique : (list.map ServerGrant.id).Nodup := by decide

namespace Grants

/-- The account has the role in the project. -/
def Holds (g : Grants) (project : Option String) (key : String) : Prop :=
  ∃ grant ∈ g.list, grant.project = project ∧ key ∈ grant.roleKeys

def ofProject (g : Grants) (project : Option String) : List ServerGrant :=
  g.list.filter fun grant => grant.project = project

/-- A grant with other roles. -/
def update (g : Grants) (id : String) (roleKeys : List String) : Grants where
  list := g.list.map (ServerGrant.withRoles id roleKeys)
  unique := by
    rw [List.map_map, show ServerGrant.id ∘ ServerGrant.withRoles id roleKeys = ServerGrant.id from
      funext fun x => x.withRoles_id id roleKeys]
    exact g.unique

/-- One more grant. -/
def add (g : Grants) (grant : ServerGrant) (h : grant.id ∉ g.list.map ServerGrant.id) :
    Grants where
  list := g.list ++ [grant]
  unique := by
    rw [List.map_append, List.map_singleton, List.nodup_append]
    refine ⟨g.unique, List.nodup_singleton _, ?_⟩
    rintro id hid _ hsame rfl
    rw [List.mem_singleton.mp hsame] at hid
    exact h hid

end Grants

/-- The accounts, of which each has an id of its own, and their grants. -/
structure Accounts where
  users : List ZitadelUser
  unique : (users.map ZitadelUser.id).Nodup
  grants : String → Grants

def Accounts.set (w : Accounts) (userId : String) (g : Grants) : Accounts :=
  { w with grants := Function.update w.grants userId g }

theorem Accounts.set_grants_self (w : Accounts) (userId : String) (g : Grants) :
    (w.set userId g).grants userId = g := Function.update_self _ _ _

theorem Accounts.set_grants_of_ne (w : Accounts) {u userId : String} (g : Grants) (h : u ≠ userId) :
    (w.set userId g).grants u = w.grants u := Function.update_of_ne h _ _

theorem Accounts.set_self (w : Accounts) (userId : String) : w.set userId (w.grants userId) = w := by
  unfold Accounts.set
  rw [Function.update_eq_self]

/-- An answer with the effect of a success or without it, which is not the refusal that `request`
takes for a success. -/
def Replies {α : Type} (E : α → Accounts → Prop) (answer : Answer α) (w w' : Accounts) : Prop :=
  ¬ answer.Precondition ∧ Changes E answer w w'

def grantStep : {β : Type} → Op β → Accounts → β → Accounts → Prop
  | _, .inl .searchUsers, w, answer, w' =>
    Replies (fun found w' => found.Perm w.users ∧ w' = w) answer w w'
  | _, .inl (.searchUserGrants userId projectId), w, answer, w' =>
    Replies (fun found w' =>
      found = ((w.grants userId).ofProject projectId).map ServerGrant.shown ∧ w' = w) answer w w'
  | _, .inl (.createUserGrant userId projectId roleKeys), w, answer, w' =>
    Replies (fun _ w' => ∃ id h,
      w' = w.set userId ((w.grants userId).add ⟨id, projectId, roleKeys⟩ h)) answer w w'
  | _, .inl (.updateUserGrant userId grantId roleKeys), w, answer, w' =>
    Replies (fun _ w' => w' = w.set userId ((w.grants userId).update grantId roleKeys)) answer w w'
  | _, _, _, _, _ => False

/-- How Zitadel answers. -/
def granting : Handler Op Accounts where
  step e w b w' := grantStep e w b w'

/-! ## A call that ends well -/

/-- The account goes by the name, with or without a domain. -/
def Named (userName : String) (u : ZitadelUser) : Prop :=
  u.userName = userName ∨ bareName u.userName = userName

instance (userName : String) (u : ZitadelUser) : Decidable (Named userName u) :=
  inferInstanceAs (Decidable (_ ∨ _))

/-- What is done about the grants of an account: the first of the project gets the roles that it
lacks, and where there is none, one is created. -/
def Grants.Step (project : Option String) (roleKeys : List String) (g g' : Grants) : Prop :=
  match g.ofProject project with
  | [] => ∃ id h, g' = g.add ⟨id, project, roleKeys⟩ h
  | grant :: _ =>
    if roleKeys.all fun k => grant.roleKeys.contains k then g' = g
    else g' = g.update grant.id (distinct (grant.roleKeys ++ roleKeys))

section Runs

variable {project : Option String} {userName : String} {roleKeys : List String}
  {w w' w'' : Accounts}

theorem replies_ok {α : Type} {E : α → Accounts → Prop} {a : α} :
    Replies E (.ok a) w w' ↔ E a w' := ⟨And.right, fun h => ⟨id, h⟩⟩

/-- A call that changes something, as the last of a program. -/
theorem run_last {c : Api (Answer Unit)} (hc : ∀ b v, granting.step (.inl c) w b v →
    ¬ b.Precondition) :
    Run granting (request c) w (some (.ok ())) w' ↔ granting.step (.inl c) w (.ok ()) w' := by
  rw [← Prog.bind_pure_right (request c), run_request_ok hc]
  constructor
  · rintro ⟨u, v, hstep, hrest⟩
    obtain ⟨-, hlast⟩ := run_pure_ok.mp hrest
    exact hlast ▸ hstep
  · exact fun hstep => ⟨(), w', hstep, .pure () w'⟩

theorem run_grant {userId : String} :
    Run granting ((request (.searchUserGrants userId project)).bind fun grants =>
      match grants with
      | grant :: _ =>
        if roleKeys.all fun k => grant.roleKeys.contains k then return
        else request (.updateUserGrant userId grant.id (distinct (grant.roleKeys ++ roleKeys)))
      | [] => request (.createUserGrant userId project roleKeys)) w (some (.ok ())) w' ↔
      ∃ g, (w.grants userId).Step project roleKeys g ∧ w' = w.set userId g := by
  have hsearch : ∀ {k : List UserGrant → Script Unit},
      Run granting ((request (.searchUserGrants userId project)).bind k) w (some (.ok ())) w' ↔
        Run granting (k (((w.grants userId).ofProject project).map ServerGrant.shown)) w
          (some (.ok ())) w' := by
    intro k
    rw [run_request_ok (H := granting) (c := .searchUserGrants userId project) fun _ _ h => h.1]
    constructor
    · rintro ⟨a, v, hstep, hrest⟩
      obtain ⟨rfl, rfl⟩ := replies_ok.mp hstep
      exact hrest
    · exact fun hrest => ⟨_, w, replies_ok.mpr ⟨rfl, rfl⟩, hrest⟩
  rw [hsearch]
  unfold Grants.Step
  rcases (w.grants userId).ofProject project with _ | ⟨grant, grants⟩
  · rw [List.map_nil]
    refine (run_last (c := .createUserGrant userId project roleKeys) fun _ _ h => h.1).trans
      (replies_ok.trans ?_)
    constructor
    · rintro ⟨id, h, rfl⟩
      exact ⟨_, ⟨id, h, rfl⟩, rfl⟩
    · rintro ⟨-, ⟨id, h, rfl⟩, rfl⟩
      exact ⟨id, h, rfl⟩
  · simp only [List.map_cons]
    by_cases hall : (roleKeys.all fun k => grant.roleKeys.contains k) = true
    · have hshown : (roleKeys.all fun k => grant.shown.roleKeys.contains k) = true := hall
      simp only [if_pos hshown, if_pos hall]
      show Run granting (.pure ()) w (some (.ok ())) w' ↔ _
      simp [run_pure_ok, Accounts.set_self]
    · have hshown : ¬ (roleKeys.all fun k => grant.shown.roleKeys.contains k) = true := hall
      simp only [if_neg hshown, if_neg hall]
      refine (run_last (c := .updateUserGrant userId grant.id (distinct (grant.roleKeys ++ roleKeys)))
        fun _ _ h => h.1).trans (replies_ok.trans ?_)
      simp

/-- A call that ends well picks one of the accounts that go by the name, and there is none
where it changes nothing. -/
theorem run_convergeUserGrant :
    Run granting (convergeUserGrant project userName roleKeys) w (some (.ok ())) w' ↔
      ((∀ u ∈ w.users, ¬ Named userName u) ∧ w' = w) ∨
      ∃ u ∈ w.users, Named userName u ∧ ∃ g,
        (w.grants u.id).Step project roleKeys g ∧ w' = w.set u.id g := by
  have hnamed : (fun u : ZitadelUser => u.userName == userName || bareName u.userName == userName) =
      fun u => decide (Named userName u) := by
    funext u
    rw [Bool.eq_iff_iff, Bool.or_eq_true, beq_iff_eq, beq_iff_eq, decide_eq_true_eq]
    exact Iff.rfl
  unfold convergeUserGrant
  simp only [Prog.bind_eq, hnamed]
  rw [run_request_ok (H := granting) (c := .searchUsers) fun _ _ h => h.1]
  constructor
  · rintro ⟨found, v, hstep, hrest⟩
    obtain ⟨hperm, rfl⟩ := replies_ok.mp hstep
    rcases hfind : (found.find? fun u => decide (Named userName u)) with _ | u
    · simp only [hfind] at hrest
      left
      refine ⟨fun u hu hname => ?_, (run_pure_ok.mp hrest).2⟩
      exact List.find?_eq_none.mp hfind u (hperm.mem_iff.mpr hu) (by simpa using hname)
    · simp only [hfind] at hrest
      right
      have hname : Named userName u := by simpa using List.find?_some hfind
      exact ⟨u, hperm.mem_iff.mp (List.mem_of_find?_eq_some hfind), hname, run_grant.mp hrest⟩
  · rintro (⟨hnone, rfl⟩ | ⟨u, hu, hname, hstep⟩)
    · refine ⟨w'.users, w', replies_ok.mpr ⟨List.Perm.refl _, rfl⟩, ?_⟩
      rw [List.find?_eq_none.mpr fun u hu h => hnone u hu (by simpa using h)]
      exact .pure () w'
    · refine ⟨u :: w.users.erase u, w, replies_ok.mpr ⟨(List.perm_cons_erase hu).symm, rfl⟩, ?_⟩
      rw [List.find?_cons_of_pos (by simpa using hname)]
      exact run_grant.mpr hstep

end Runs

/-! ## What is done to the grants of an account -/

section Steps

variable {project : Option String} {roleKeys : List String} {g g' : Grants}

/-- The first grant of the project has the roles. -/
def Grants.Done (g : Grants) (project : Option String) (roleKeys : List String) : Prop :=
  match g.ofProject project with
  | [] => False
  | grant :: _ => ∀ k ∈ roleKeys, k ∈ grant.roleKeys

instance (g : Grants) (project : Option String) (roleKeys : List String) :
    Decidable (g.Done project roleKeys) := by
  unfold Grants.Done
  split <;> infer_instance

theorem mem_distinct {keys : List String} {k : String} : k ∈ distinct keys ↔ k ∈ keys := by
  have hfold : ∀ ks : List String,
      k ∈ keys.foldl (fun ks k => if ks.contains k then ks else ks ++ [k]) ks ↔
        k ∈ ks ∨ k ∈ keys := by
    induction keys with
    | nil => simp
    | cons key keys ih =>
      intro ks
      rw [List.foldl_cons, ih]
      by_cases hkey : key ∈ ks
      · rw [if_pos (by simpa using hkey), List.mem_cons]
        constructor
        · tauto
        · rintro (h | rfl | h) <;> tauto
      · rw [if_neg (by simpa using hkey), List.mem_append, List.mem_singleton, List.mem_cons]
        tauto
  unfold distinct
  rw [hfold]
  simp

/-- Of grants that have the roles, nothing is changed. -/
theorem Grants.Step.eq_of_done (h : g.Step project roleKeys g') (hdone : g.Done project roleKeys) :
    g' = g := by
  unfold Grants.Step at h
  unfold Grants.Done at hdone
  rcases hof : g.ofProject project with _ | ⟨grant, grants⟩
  · simp only [hof] at hdone
  · simp only [hof] at h hdone
    rwa [if_pos (by simpa using hdone)] at h

theorem Grants.exists_step (g : Grants) (project : Option String) (roleKeys : List String) :
    ∃ g', g.Step project roleKeys g' := by
  unfold Grants.Step
  rcases g.ofProject project with _ | ⟨grant, grants⟩
  · obtain ⟨id, hid⟩ := Infinite.exists_notMem_finset (g.list.map ServerGrant.id).toFinset
    exact ⟨_, id, by simpa using hid, rfl⟩
  · simp only
    split
    · exact ⟨_, rfl⟩
    · exact ⟨_, rfl⟩

theorem Grants.mem_ofProject {p : Option String} {grant : ServerGrant} :
    grant ∈ g.ofProject p ↔ grant ∈ g.list ∧ grant.project = p := by
  unfold Grants.ofProject
  rw [List.mem_filter, decide_eq_true_eq]

theorem Grants.ofProject_update (p : Option String) (id : String) :
    (g.update id roleKeys).ofProject p = (g.ofProject p).map (ServerGrant.withRoles id roleKeys) := by
  unfold Grants.ofProject Grants.update
  rw [List.filter_map]
  congr 1
  apply List.filter_congr
  intro x _
  rw [Function.comp_apply, ServerGrant.withRoles_project]

/-- The grants of other projects are as they were. -/
theorem Grants.Step.others (h : g.Step project roleKeys g') {p : Option String} (hp : p ≠ project) :
    g'.ofProject p = g.ofProject p := by
  unfold Grants.Step at h
  rcases hof : g.ofProject project with _ | ⟨grant, grants⟩
  · simp only [hof] at h
    obtain ⟨id, hid, rfl⟩ := h
    simp [Grants.ofProject, Grants.add, hp.symm]
  · obtain ⟨hgrant, hproject⟩ := Grants.mem_ofProject.mp (hof ▸ List.mem_cons_self)
    simp only [hof] at h
    split at h
    · rw [h]
    · rw [h, Grants.ofProject_update]
      apply (List.map_congr_left _).trans (List.map_id _)
      intro x hx
      obtain ⟨hmem, hxp⟩ := Grants.mem_ofProject.mp hx
      unfold ServerGrant.withRoles
      rw [if_neg, id]
      intro hid
      exact hp (hxp.symm.trans
        ((congrArg ServerGrant.project (List.inj_on_of_nodup_map g.unique hmem hgrant hid)).trans
          hproject))

/-- The account then has the roles that it had and those that were asked for. -/
theorem Grants.Step.holds (h : g.Step project roleKeys g') (key : String) :
    g'.Holds project key ↔ g.Holds project key ∨ key ∈ roleKeys := by
  unfold Grants.Step at h
  rcases hof : g.ofProject project with _ | ⟨grant, grants⟩
  · simp only [hof] at h
    obtain ⟨id, hid, rfl⟩ := h
    simp [Grants.Holds, Grants.add, or_and_right, exists_or]
  · obtain ⟨hgrant, hproject⟩ := Grants.mem_ofProject.mp (hof ▸ List.mem_cons_self)
    simp only [hof] at h
    split at h
    · rename_i hall
      rw [h]
      refine ⟨Or.inl, ?_⟩
      rintro (hholds | hkey)
      · exact hholds
      · exact ⟨grant, hgrant, hproject, by simpa using (List.all_eq_true.mp hall) key hkey⟩
    · rw [h]
      constructor
      · rintro ⟨x', hx', hp, hkey⟩
        obtain ⟨x, hx, rfl⟩ := List.mem_map.mp hx'
        rw [ServerGrant.withRoles_project] at hp
        unfold ServerGrant.withRoles at hkey
        split at hkey
        · rename_i hid
          obtain rfl := List.inj_on_of_nodup_map g.unique hx hgrant hid
          rcases List.mem_append.mp (mem_distinct.mp hkey) with hold | hnew
          · exact Or.inl ⟨x, hx, hp, hold⟩
          · exact Or.inr hnew
        · exact Or.inl ⟨x, hx, hp, hkey⟩
      · intro hholds
        by_cases hfirst : key ∈ grant.roleKeys ∨ key ∈ roleKeys
        · refine ⟨_, List.mem_map_of_mem hgrant, ?_, ?_⟩
          · rw [ServerGrant.withRoles_project, hproject]
          · unfold ServerGrant.withRoles
            rw [if_pos rfl]
            exact mem_distinct.mpr (List.mem_append.mpr hfirst)
        · obtain ⟨hnot, hnew⟩ := not_or.mp hfirst
          obtain ⟨x, hx, hp, hkey⟩ := hholds.resolve_right hnew
          refine ⟨_, List.mem_map_of_mem hx, ?_, ?_⟩
          · rw [ServerGrant.withRoles_project, hp]
          · unfold ServerGrant.withRoles
            rw [if_neg]
            · exact hkey
            · intro hid
              exact hnot (List.inj_on_of_nodup_map g.unique hx hgrant hid ▸ hkey)

theorem Grants.Step.done (h : g.Step project roleKeys g') : g'.Done project roleKeys := by
  unfold Grants.Step at h
  rcases hof : g.ofProject project with _ | ⟨grant, grants⟩
  · simp only [hof] at h
    obtain ⟨id, hid, rfl⟩ := h
    have hnew : (g.add ⟨id, project, roleKeys⟩ hid).ofProject project = [⟨id, project, roleKeys⟩] := by
      show (g.list ++ [_]).filter _ = _
      rw [List.filter_append, show g.list.filter _ = [] from hof]
      simp
    unfold Grants.Done
    rw [hnew]
    exact fun k hk => hk
  · simp only [hof] at h
    unfold Grants.Done
    split at h
    · rename_i hall
      rw [h, hof]
      simpa using hall
    · rw [h, Grants.ofProject_update, hof]
      intro k hk
      unfold ServerGrant.withRoles
      rw [if_pos rfl]
      exact mem_distinct.mpr (List.mem_append_right _ hk)

end Steps

/-! ## The named account -/

/-- Only the grants of the account for the project may differ. -/
def OnlyOf (userId : String) (project : Option String) (w w' : Accounts) : Prop :=
  w'.users = w.users ∧ (∀ u, u ≠ userId → w'.grants u = w.grants u) ∧
    ∀ p, p ≠ project → (w'.grants userId).ofProject p = (w.grants userId).ofProject p

/-- The account then has the roles that it had and those that were asked for, and nothing else
is changed. -/
def RolesAdded (userId : String) (project : Option String) (roleKeys : List String)
    (w w' : Accounts) : Prop :=
  OnlyOf userId project w w' ∧ ∀ key,
    (w'.grants userId).Holds project key ↔ (w.grants userId).Holds project key ∨ key ∈ roleKeys

/-- What a call that ends well leaves, in whatever order the accounts are listed to it: the
account of just that name has the roles; where there is none, one that goes by the name has them,
if there is one; and a second call that ends well changes nothing. -/
structure NamedOnce (project : Option String) (userName : String) (roleKeys : List String)
    (w w' : Accounts) : Prop where
  exact : ∀ u ∈ w.users, u.userName = userName → RolesAdded u.id project roleKeys w w'
  named : (∃ u ∈ w.users, Named userName u) →
    ∃ u ∈ w.users, Named userName u ∧ RolesAdded u.id project roleKeys w w'
  unnamed : (∀ u ∈ w.users, ¬ Named userName u) → w' = w
  again : ∀ w'', Run granting (convergeUserGrant project userName roleKeys) w' (some (.ok ())) w'' →
    w'' = w'

/-- The roles go to the named account, and only add. -/
def GrantsNamed (project : Option String) (userName : String) (roleKeys : List String)
    (w : Accounts) : Prop :=
  (∃ w', Run granting (convergeUserGrant project userName roleKeys) w (some (.ok ())) w') ∧
  ∀ w', Run granting (convergeUserGrant project userName roleKeys) w (some (.ok ())) w' →
    NamedOnce project userName roleKeys w w'

section Named

variable {project : Option String} {userName : String} {roleKeys : List String} {w : Accounts}

theorem rolesAdded_set {userId : String} {g : Grants}
    (h : (w.grants userId).Step project roleKeys g) :
    RolesAdded userId project roleKeys w (w.set userId g) := by
  refine ⟨⟨rfl, fun u hu => w.set_grants_of_ne g hu, ?_⟩, ?_⟩
  · intro p hp
    rw [w.set_grants_self]
    exact h.others hp
  · intro key
    rw [w.set_grants_self]
    exact h.holds key

/-- An account that a call has been about is left alone by a second call about it. -/
theorem set_again {userId : String} {g g' : Grants} (h : (w.grants userId).Step project roleKeys g)
    (h' : ((w.set userId g).grants userId).Step project roleKeys g') :
    (w.set userId g).set userId g' = w.set userId g := by
  rw [w.set_grants_self] at h'
  rw [h'.eq_of_done h.done]
  unfold Accounts.set
  rw [Function.update_idem]

/-- A call about an account that has the roles changes nothing. -/
theorem set_of_done {userId : String} {g : Grants} (h : (w.grants userId).Step project roleKeys g)
    (hdone : (w.grants userId).Done project roleKeys) : w.set userId g = w := by
  rw [h.eq_of_done hdone]
  exact w.set_self userId

theorem rolesAdded_of_done {userId : String} (hdone : (w.grants userId).Done project roleKeys) :
    RolesAdded userId project roleKeys w w := by
  obtain ⟨g, hg⟩ := (w.grants userId).exists_step project roleKeys
  have hadded := rolesAdded_set hg
  rwa [set_of_done hg hdone] at hadded

theorem exists_run (project : Option String) (userName : String) (roleKeys : List String)
    (w : Accounts) :
    ∃ w', Run granting (convergeUserGrant project userName roleKeys) w (some (.ok ())) w' := by
  simp only [run_convergeUserGrant]
  by_cases h : ∃ u ∈ w.users, Named userName u
  · obtain ⟨u, hu, hname⟩ := h
    obtain ⟨g, hg⟩ := (w.grants u.id).exists_step project roleKeys
    exact ⟨_, Or.inr ⟨u, hu, hname, g, hg, rfl⟩⟩
  · exact ⟨w, Or.inl ⟨fun u hu hname => h ⟨u, hu, hname⟩, rfl⟩⟩

/-- With two accounts that go by the name, one of them without the roles, a second call can be
about the other account. -/
theorem not_again {u n : ZitadelUser} (hu : u ∈ w.users) (hn : n ∈ w.users) (hne : u ≠ n)
    (hname : Named userName u) (hname' : Named userName n)
    (hnot : ¬ (w.grants n.id).Done project roleKeys) :
    ¬ ∀ w', Run granting (convergeUserGrant project userName roleKeys) w (some (.ok ())) w' →
      ∀ w'', Run granting (convergeUserGrant project userName roleKeys) w' (some (.ok ())) w'' →
        w'' = w' := by
  intro h
  obtain ⟨g, hg⟩ := (w.grants u.id).exists_step project roleKeys
  obtain ⟨g', hg'⟩ := ((w.set u.id g).grants n.id).exists_step project roleKeys
  have hid : n.id ≠ u.id := fun hid => hne (List.inj_on_of_nodup_map w.unique hu hn hid.symm)
  have hsame := h (w.set u.id g) (run_convergeUserGrant.mpr (Or.inr ⟨u, hu, hname, g, hg, rfl⟩))
    ((w.set u.id g).set n.id g')
    (run_convergeUserGrant.mpr (Or.inr ⟨n, hn, hname', g', hg', rfl⟩))
  have hgrants := congrFun (congrArg Accounts.grants hsame) n.id
  rw [Accounts.set_grants_self, w.set_grants_of_ne g hid] at hgrants
  exact hnot (hgrants ▸ hg'.done)

/-- The roles go to the named account if and only if at most one account goes by the name, or
every account that does has the roles already. -/
theorem grants_named_iff (project : Option String) (userName : String) (roleKeys : List String)
    (w : Accounts) : GrantsNamed project userName roleKeys w ↔
      (∀ u ∈ w.users, ∀ v ∈ w.users, Named userName u → Named userName v → u = v) ∨
      ∀ u ∈ w.users, Named userName u → (w.grants u.id).Done project roleKeys := by
  constructor
  · rintro ⟨-, h⟩
    by_contra hnot
    obtain ⟨hone, hdone⟩ := not_or.mp hnot
    push Not at hone hdone
    obtain ⟨u, hu, v, hv, hnameu, hnamev, hne⟩ := hone
    obtain ⟨n, hn, hnamen, hnotdone⟩ := hdone
    by_cases hun : u = n
    · subst hun
      exact not_again hv hu hne.symm hnamev hnameu hnotdone fun w' hw' => (h w' hw').again
    · exact not_again hu hn hun hnameu hnamen hnotdone fun w' hw' => (h w' hw').again
  · intro h
    refine ⟨exists_run project userName roleKeys w, ?_⟩
    intro w' hrun
    rcases run_convergeUserGrant.mp hrun with ⟨hnone, rfl⟩ | ⟨u, hu, hname, g, hg, rfl⟩
    · constructor
      · intro x hx hexact
        exact absurd (Or.inl hexact) (hnone x hx)
      · rintro ⟨x, hx, hnamex⟩
        exact absurd hnamex (hnone x hx)
      · exact fun _ => rfl
      · intro w'' hagain
        rcases run_convergeUserGrant.mp hagain with ⟨-, heq⟩ | ⟨x, hx, hnamex, -⟩
        · exact heq
        · exact absurd hnamex (hnone x hx)
    · constructor
      · intro x hx hexact
        rcases h with hone | hdone
        · rw [hone x hx u hu (Or.inl hexact) hname]
          exact rolesAdded_set hg
        · rw [set_of_done hg (hdone u hu hname)]
          exact rolesAdded_of_done (hdone x hx (Or.inl hexact))
      · exact fun _ => ⟨u, hu, hname, rolesAdded_set hg⟩
      · exact fun hnone => absurd hname (hnone u hu)
      · intro w'' hagain
        rcases run_convergeUserGrant.mp hagain with ⟨hnone, -⟩ | ⟨x, hx, hnamex, g', hg', rfl⟩
        · exact absurd hname (hnone u hu)
        · rcases h with hone | hdone
          · obtain rfl := hone x hx u hu hnamex hname
            exact set_again hg hg'
          · rw [set_of_done hg (hdone u hu hname)] at hg' ⊢
            exact set_of_done hg' (hdone x hx hnamex)

end Named

/-- The administrator, and a person of another organisation with the same local part. -/
def sameLocalPart : Accounts where
  users := [⟨"2", "admin@partner.example", none⟩, ⟨"1", "admin", none⟩]
  unique := by decide
  grants _ := {}

/-- The other person is listed first, and is granted the role of the administrator. -/
theorem stranger_granted :
    ¬ ∀ project userName roleKeys w, GrantsNamed project userName roleKeys w := by
  intro h
  obtain ⟨g, hg⟩ := (sameLocalPart.grants "2").exists_step (some "10") ["admin"]
  have hrun : Run granting (convergeUserGrant (some "10") "admin" ["admin"]) sameLocalPart
      (some (.ok ())) (sameLocalPart.set "2" g) :=
    run_convergeUserGrant.mpr (Or.inr
      ⟨⟨"2", "admin@partner.example", none⟩, by decide, Or.inr (by decide +kernel), g, hg, rfl⟩)
  have hexact := ((h _ _ _ _).2 _ hrun).exact ⟨"1", "admin", none⟩ (by decide) rfl
  have hkept := hexact.1.2.1 "2" (by decide)
  rw [Accounts.set_grants_self] at hkept
  have hdone := hkept ▸ hg.done
  revert hdone
  decide +kernel

end Foundrix.ZitadelConfigure
