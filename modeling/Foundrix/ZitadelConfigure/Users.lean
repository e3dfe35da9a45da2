import Foundrix.ZitadelConfigure.Basics
import Foundrix.ZitadelConfigure.Unconcerned

/-!
# Accounts, and deploys that settle

The accounts that `convergeBasics` of `services/zitadel-configure.ts` creates, renames and gives
other addresses, and its runs as a whole.

* `emails_converge`, `users_converge`: the addresses and the names.
* `Basic`, `convergeBasics_eq`: the functions one after the other.
* `basics_settle`: a complete run, the runs before it and those behind it.
-/

namespace Foundrix.ZitadelConfigure

open Text Effect Machine

section Runs

variable {R : Resets} {spec : DesiredState} {w w' : Base}

/-! ## The addresses of the accounts -/

/-- What changes the accounts one by one. -/
theorem BasicsKept.of_map {f : Human → Human} (h : Peopled (w.people.list.map f) w w')
    (hf : ∀ a ∈ w.people.list, Follows spec a (f a)) : BasicsKept R spec w w' := by
  obtain ⟨p, hlist, rfl⟩ := h
  refine { BasicsKept.refl R spec w with
    people := fun a ha => ⟨f a, ?_, hf a ha⟩
    created := fun a' ha' => Or.inl ?_ }
  · rw [hlist]
    exact List.mem_map_of_mem ha
  · rw [hlist] at ha'
    obtain ⟨a, ha, rfl⟩ := List.mem_map.mp ha'
    exact ⟨a, ha, hf a ha⟩

theorem follows_mail {a : Human} (ha : a ∈ w.people.list) {e : String}
    (hmoved : movedEmail spec.adminOrg a.shown = some e) :
    ∀ b ∈ w.people.list, Follows spec b (b.mail a.id e) := by
  intro b hb
  unfold Human.mail
  by_cases hid : b.id = a.id
  · rw [if_pos hid]
    obtain rfl := People.eq_of_id hb ha hid
    exact ⟨rfl, rfl, rfl, Or.inl rfl, Or.inr ⟨e, hmoved, rfl⟩⟩
  · rw [if_neg hid]
    exact .refl spec b

/-- Every address is at the domain. -/
def AtDomain (domain : String) (w : Base) : Prop :=
  ∀ a ∈ w.people.list, movedEmail domain a.shown = none

/-- The addresses that are left to be moved are those of the accounts that are left. -/
structure Moving (R : Resets) (spec : DesiredState) (x : Base) (rest : List ZitadelUser)
    (w : Base) : Prop where
  kept : BasicsKept R spec x w
  idle : AtDomain spec.adminOrg x → w = x
  ids : (rest.map ZitadelUser.id).Nodup
  listed : ∀ u ∈ rest, ∃ a ∈ w.people.list, a.shown = u
  moved : ∀ a ∈ w.people.list, movedEmail spec.adminOrg a.shown = none ∨ a.shown ∈ rest

theorem Moving.next {x : Base} {u : ZitadelUser} {rest : List ZitadelUser}
    (h : Moving R spec x (u :: rest) w) (hnone : movedEmail spec.adminOrg u = none) :
    Moving R spec x rest w where
  kept := h.kept
  idle := h.idle
  ids := h.ids.of_cons
  listed v hv := h.listed v (List.mem_cons_of_mem _ hv)
  moved a ha := (h.moved a ha).elim Or.inl fun hmem => (List.mem_cons.mp hmem).elim
    (fun heq => Or.inl (heq ▸ hnone)) Or.inr

theorem Moving.mailed (hapart : spec.NamesApart) {x : Base} {a : Human} {rest : List ZitadelUser}
    {e : String} (h : Moving R spec x (a.shown :: rest) w) (ha : a ∈ w.people.list)
    (hmoved : movedEmail spec.adminOrg a.shown = some e)
    (hset : Peopled (w.people.list.map (Human.mail a.id e)) w w') : Moving R spec x rest w' := by
  have hkept : BasicsKept R spec w w' := .of_map hset (follows_mail ha hmoved)
  obtain ⟨p, hlist, rfl⟩ := hset
  obtain ⟨hnew, hids⟩ := List.nodup_cons.mp h.ids
  have hother : ∀ {b : Human}, b.id ≠ a.id → b.mail a.id e = b := fun hne => if_neg hne
  refine ⟨h.kept.trans hapart hkept, fun hdone => ?_, hids, fun u hu => ?_, fun b hb => ?_⟩
  · obtain rfl := h.idle hdone
    rw [hdone a ha] at hmoved
    cases hmoved
  · obtain ⟨b, hb, rfl⟩ := h.listed u (List.mem_cons_of_mem _ hu)
    have hne : b.id ≠ a.id := by
      rintro heq
      have hmem : b.shown.id ∈ rest.map ZitadelUser.id := List.mem_map_of_mem hu
      rw [show b.shown.id = a.shown.id from heq] at hmem
      exact hnew hmem
    refine ⟨b, ?_, rfl⟩
    rw [hlist]
    exact List.mem_map.mpr ⟨b, hb, hother hne⟩
  · rw [hlist] at hb
    obtain ⟨c, hc, rfl⟩ := List.mem_map.mp hb
    by_cases hid : c.id = a.id
    · obtain rfl := People.eq_of_id hc ha hid
      refine Or.inl (movedEmail_moved hmoved ?_)
      unfold Human.mail
      rw [if_pos rfl]
      rfl
    · rw [hother hid]
      refine (h.moved c hc).imp_right fun hmem => (List.mem_cons.mp hmem).resolve_left ?_
      rintro heq
      exact hid (congrArg ZitadelUser.id heq)

theorem emails_converge (hapart : spec.NamesApart) :
    Converges R spec (convergeUserEmails spec.adminOrg) (AtDomain spec.adminOrg) := by
  intro x
  refine wpOk_seq_within searchUsers_spec ?_ ?_
  · rintro w rfl
    exact ⟨.refl R spec w, fun _ => rfl⟩
  rintro users w rfl hperm
  rw [forEach_eq]
  have hids : (users.map ZitadelUser.id).Nodup := by
    rw [(hperm.map ZitadelUser.id).nodup_iff, List.map_map]
    exact w.people.ids
  have hstart : Moving R spec w users w := by
    refine ⟨.refl R spec w, fun _ => rfl, hids, fun u hu => ?_, fun a ha => Or.inr ?_⟩
    · exact List.mem_map.mp (hperm.mem_iff.mp hu)
    · exact hperm.mem_iff.mpr (List.mem_map_of_mem ha)
  refine wpOk_mono (wpOk_forM (Moving R spec w) hstart (fun v h => ⟨h.kept, h.idle⟩)
    fun u rest v hv => ?_) fun _ v _ h a ha => (h.moved a ha).resolve_right List.not_mem_nil
  cases hmoved : movedEmail spec.adminOrg u with
  | none => exact wpOk_pure ⟨hv.kept, hv.idle⟩ (hv.next hmoved)
  | some newEmail =>
    obtain ⟨a, ha, rfl⟩ := hv.listed u List.mem_cons_self
    have hset : wpOk (basics R)
        (fun v' => v' = v ∨ Peopled (v.people.list.map (Human.mail a.id newEmail)) v v')
        (request (.updateUserEmail a.id newEmail))
        (fun _ v' => Peopled (v.people.list.map (Human.mail a.id newEmail)) v v') v :=
      request_does fun _ _ hs => hs
    refine wpOk_mono (wp_always_mono hset ?_) fun _ v' _ h => hv.mailed hapart ha hmoved h
    rintro v' (rfl | h)
    · exact ⟨hv.kept, hv.idle⟩
    · exact ⟨(hv.mailed hapart ha hmoved h).kept, (hv.mailed hapart ha hmoved h).idle⟩

/-! ## The accounts of the users -/

/-- The account with an id has this name. -/
def NameAt (w : Base) (id name : String) : Prop :=
  ∃ a ∈ w.people.list, a.id = id ∧ a.userName = name

/-- What was listed still says who has the name. -/
def Tallies (existing : List ZitadelUser) (name : String) (w : Base) : Prop :=
  ∀ id, (∃ e ∈ existing, e.id = id ∧ e.userName = name) ↔ NameAt w id name

/-- Who has a name other than the two of this user has it as before. -/
def OthersNamed (spec : DesiredState) (u : UserSpec) (w w' : Base) : Prop :=
  ∀ name, name ≠ u.username → name ≠ u.login spec.adminOrg →
    ∀ id, NameAt w' id name ↔ NameAt w id name

def HasLogin (spec : DesiredState) (u : UserSpec) (w : Base) : Prop :=
  ∃ a ∈ w.people.list, a.userName = u.login spec.adminOrg

section Renaming

variable {a : Human} {u : UserSpec} (ha : a ∈ w.people.list) (hname : a.userName = u.username)
  (h : Peopled (w.people.list.map (Human.rename a.id (u.login spec.adminOrg))) w w')
include ha hname h

theorem renamed_kept (hu : u ∈ spec.users) : BasicsKept R spec w w' := by
  refine .of_map h fun b hb => ?_
  unfold Human.rename
  by_cases hid : b.id = a.id
  · rw [if_pos hid]
    obtain rfl := People.eq_of_id hb ha hid
    exact ⟨rfl, rfl, rfl, Or.inr ⟨u, hu, hname, rfl⟩, Or.inl rfl⟩
  · rw [if_neg hid]
    exact .refl spec b

theorem renamed_others : HasLogin spec u w' ∧ OthersNamed spec u w w' := by
  obtain ⟨p, hlist, rfl⟩ := h
  constructor
  · refine ⟨a.rename a.id (u.login spec.adminOrg), ?_, ?_⟩
    · rw [hlist]
      exact List.mem_map_of_mem ha
    · exact congrArg Human.userName (if_pos rfl)
  intro name hbare hlogin id
  constructor
  · rintro ⟨b, hb, rfl, rfl⟩
    rw [hlist] at hb
    obtain ⟨c, hc, rfl⟩ := List.mem_map.mp hb
    unfold Human.rename at hlogin ⊢
    by_cases hid : c.id = a.id
    · rw [if_pos hid] at hlogin
      exact absurd rfl hlogin
    · rw [if_neg hid]
      exact ⟨c, hc, rfl, rfl⟩
  · rintro ⟨b, hb, rfl, rfl⟩
    have hid : b.id ≠ a.id := by
      rintro hid
      obtain rfl := People.eq_of_id hb ha hid
      exact hbare hname
    refine ⟨b, ?_, rfl, rfl⟩
    rw [hlist]
    exact List.mem_map.mpr ⟨b, hb, if_neg hid⟩

/-- No account gets a name that another one has. -/
theorem renamed_absurd (hne : u.username ≠ u.login spec.adminOrg) : ¬ HasLogin spec u w := by
  rintro ⟨b, hb, hlogin⟩
  obtain ⟨p, hlist, -⟩ := h
  have hid : b.id ≠ a.id := by
    rintro hid
    obtain rfl := People.eq_of_id hb ha hid
    exact hne (hname.symm.trans hlogin)
  have hrenamed : a.rename a.id (u.login spec.adminOrg) ∈ p.list := hlist ▸ List.mem_map_of_mem ha
  have hb' : b ∈ p.list := hlist ▸ List.mem_map.mpr ⟨b, hb, if_neg hid⟩
  have hlogin' : (a.rename a.id (u.login spec.adminOrg)).userName = b.userName :=
    (congrArg Human.userName (if_pos rfl)).trans hlogin.symm
  have hsame := congrArg Human.id (People.eq_of_name hrenamed hb' hlogin')
  have hid' : (a.rename a.id (u.login spec.adminOrg)).id = a.id := by
    unfold Human.rename
    rw [if_pos rfl]
  exact hid (hsame.symm.trans hid')

end Renaming

section Creating

variable {u : UserSpec} {id text : String}
  (h : Peopled (w.people.list ++ [u.human spec.adminOrg id text]) w w')
include h

theorem created_kept (hu : u ∈ spec.users) (htext : w.texts u.passwordPath = some text)
    (hnone : ∀ a ∈ w.people.list, a.userName ≠ u.username ∧ a.userName ≠ u.login spec.adminOrg) :
    BasicsKept R spec w w' := by
  obtain ⟨p, hlist, rfl⟩ := h
  refine { BasicsKept.refl R spec w with
    people := fun a ha => ⟨a, ?_, .refl spec a⟩
    created := fun a ha => ?_ }
  · rw [hlist]
    exact List.mem_append_left _ ha
  · rw [hlist] at ha
    rcases List.mem_append.mp ha with ha | ha
    · exact Or.inl ⟨a, ha, .refl spec a⟩
    · obtain rfl := List.mem_singleton.mp ha
      exact Or.inr ⟨u, hu, hnone, id, text, htext, .refl spec _⟩

theorem created_others : HasLogin spec u w' ∧ OthersNamed spec u w w' := by
  obtain ⟨p, hlist, rfl⟩ := h
  refine ⟨⟨u.human spec.adminOrg id text, ?_, rfl⟩, fun name _ hlogin i => ?_⟩
  · rw [hlist]
    exact List.mem_append_right _ List.mem_cons_self
  constructor
  · rintro ⟨b, hb, rfl, rfl⟩
    rw [hlist] at hb
    rcases List.mem_append.mp hb with hb | hb
    · exact ⟨b, hb, rfl, rfl⟩
    · obtain rfl := List.mem_singleton.mp hb
      exact absurd rfl hlogin
  · rintro ⟨b, hb, rfl, rfl⟩
    exact ⟨b, hlist ▸ List.mem_append_left _ hb, rfl, rfl⟩

end Creating

theorem readText_spec (path : String) : wpOk (basics R) (fun w' => w' = w)
    (deno (.readTextFile path)) (fun text _ => w.texts path = some text) w := by
  refine wp_step rfl fun b w' hs => ?_
  obtain ⟨rfl, htext⟩ := hs
  exact wp_orFail rfl fun a ha => htext a ha

section Cases

variable {existing : List ZitadelUser} {adminOrg : String} {u : UserSpec}

theorem convergeUser_none (hfind : (existing.find? fun e =>
    e.userName == u.username || e.userName == u.login adminOrg) = none) :
    convergeUser existing adminOrg u = (deno (.readTextFile u.passwordPath)).bind fun password =>
      request (.createHumanUser (u.login adminOrg) u.displayName (u.login adminOrg)
        (jsTrim password)) := by
  unfold UserSpec.login at hfind
  unfold convergeUser
  simp only [hfind]
  rfl

theorem convergeUser_some {current : ZitadelUser} (hfind : (existing.find? fun e =>
    e.userName == u.username || e.userName == u.login adminOrg) = some current) :
    convergeUser existing adminOrg u =
      if current.userName = u.login adminOrg then .pure ()
      else request (.updateUserName current.id (u.login adminOrg)) := by
  unfold UserSpec.login at hfind ⊢
  unfold convergeUser
  simp only [hfind, ne_eq, ite_not]
  rfl

end Cases

theorem convergeUser_spec (hapart : spec.NamesApart) {u : UserSpec} (hu : u ∈ spec.users)
    {existing : List ZitadelUser} (hbare : Tallies existing u.username w)
    (hlogin : Tallies existing (u.login spec.adminOrg) w) :
    wpOk (basics R) (fun w' => BasicsKept R spec w w' ∧ (HasLogin spec u w → w' = w))
      (convergeUser existing spec.adminOrg u)
      (fun _ w' => HasLogin spec u w' ∧ OthersNamed spec u w w') w := by
  have hne : u.username ≠ u.login spec.adminOrg := (hapart.logins u hu u hu).symm
  have hsame : ∀ w', w' = w → BasicsKept R spec w w' ∧ (HasLogin spec u w → w' = w) := by
    rintro w' rfl
    exact ⟨.refl R spec w', fun _ => rfl⟩
  cases hfind : existing.find? fun e =>
    e.userName == u.username || e.userName == u.login spec.adminOrg with
  | none =>
    rw [convergeUser_none hfind]
    have hunnamed : ∀ e ∈ existing, e.userName ≠ u.username ∧
        e.userName ≠ u.login spec.adminOrg := by
      intro e he
      simpa using List.find?_eq_none.mp hfind e he
    have hnone : ∀ a ∈ w.people.list, a.userName ≠ u.username ∧
        a.userName ≠ u.login spec.adminOrg := by
      intro a ha
      constructor
      · intro hname
        obtain ⟨e, he, -, hname'⟩ := (hbare a.id).mpr ⟨a, ha, rfl, hname⟩
        exact (hunnamed e he).1 hname'
      · intro hname
        obtain ⟨e, he, -, hname'⟩ := (hlogin a.id).mpr ⟨a, ha, rfl, hname⟩
        exact (hunnamed e he).2 hname'
    have hmissing : ¬ HasLogin spec u w := by
      rintro ⟨a, ha, hname⟩
      exact (hnone a ha).2 hname
    refine wpOk_seq_within (readText_spec u.passwordPath) hsame ?_
    rintro text w' rfl htext
    have hcreate : wpOk (basics R)
        (fun v => v = w' ∨ ∃ _ : Unit, ∃ id,
          Peopled (w'.people.list ++ [u.human spec.adminOrg id text]) w' v)
        (request (.createHumanUser (u.login spec.adminOrg) u.displayName (u.login spec.adminOrg)
          (jsTrim text)))
        (fun _ v => ∃ id, Peopled (w'.people.list ++ [u.human spec.adminOrg id text]) w' v) w' :=
      request_effects fun _ _ hs => hs
    refine wpOk_mono (wp_always_mono hcreate ?_) ?_
    · rintro v (rfl | ⟨-, id, hset⟩)
      · exact hsame _ rfl
      · exact ⟨created_kept hset hu htext hnone, fun h => absurd h hmissing⟩
    · rintro _ v - ⟨id, hset⟩
      exact created_others hset
  | some current =>
    rw [convergeUser_some hfind]
    have hmem := List.mem_of_find?_eq_some hfind
    have hname : current.userName = u.username ∨ current.userName = u.login spec.adminOrg := by
      simpa using List.find?_some hfind
    by_cases hdone : current.userName = u.login spec.adminOrg
    · rw [if_pos hdone]
      refine wpOk_pure (hsame _ rfl) ⟨?_, fun _ _ _ _ => Iff.rfl⟩
      obtain ⟨a, ha, -, haname⟩ := (hlogin current.id).mp ⟨current, hmem, rfl, hdone⟩
      exact ⟨a, ha, haname⟩
    · rw [if_neg hdone]
      obtain ⟨a, ha, hid, haname⟩ :=
        (hbare current.id).mp ⟨current, hmem, rfl, hname.resolve_right hdone⟩
      rw [← hid]
      have hset : ∀ name, wpOk (basics R)
          (fun v => v = w ∨ Peopled (w.people.list.map (Human.rename a.id name)) w v)
          (request (.updateUserName a.id name))
          (fun _ v => Peopled (w.people.list.map (Human.rename a.id name)) w v) w :=
        fun _ => request_does fun _ _ hs => hs
      refine wpOk_mono (wp_always_mono (hset _) ?_) fun _ v _ h => renamed_others ha haname h
      rintro v (rfl | h)
      · exact hsame _ rfl
      · exact ⟨renamed_kept ha haname h hu, fun h' => absurd h' (renamed_absurd ha haname h hne)⟩

/-- The users that are left, of whom the list still tells the accounts. -/
structure Registering (R : Resets) (spec : DesiredState) (x : Base) (existing : List ZitadelUser)
    (rest : List UserSpec) (w : Base) : Prop where
  kept : BasicsKept R spec x w
  idle : (∀ u ∈ spec.users, HasLogin spec u x) → w = x
  users : ∀ u ∈ rest, u ∈ spec.users
  names : (rest.map UserSpec.username).Nodup
  tallies : ∀ u ∈ rest, Tallies existing u.username w ∧ Tallies existing (u.login spec.adminOrg) w
  met : ∀ u ∈ spec.users, u ∈ rest ∨ HasLogin spec u w

theorem Registering.next (hapart : spec.NamesApart) {x : Base} {existing : List ZitadelUser}
    {u : UserSpec} {rest : List UserSpec} (h : Registering R spec x existing (u :: rest) w)
    (hkept : BasicsKept R spec w w') (hidle : HasLogin spec u w → w' = w)
    (hlogin : HasLogin spec u w') (hothers : OthersNamed spec u w w') :
    Registering R spec x existing rest w' := by
  have hu := h.users u List.mem_cons_self
  obtain ⟨hnew, hnames⟩ := List.nodup_cons.mp h.names
  -- a user of another name has neither of the two names of this one
  have hother : ∀ v ∈ spec.users, v.username ≠ u.username →
      (∀ id, NameAt w' id v.username ↔ NameAt w id v.username) ∧
        ∀ id, NameAt w' id (v.login spec.adminOrg) ↔ NameAt w id (v.login spec.adminOrg) := by
    intro v hv hne
    refine ⟨hothers _ hne (hapart.logins u hu v hv).symm, hothers _ (hapart.logins v hv u hu) ?_⟩
    intro heq
    unfold UserSpec.login at heq
    rw [String.append_assoc, String.append_assoc] at heq
    exact hne (String.append_left_inj _ |>.mp heq)
  have husers : ∀ v ∈ rest, v ∈ spec.users := fun v hv => h.users v (List.mem_cons_of_mem _ hv)
  refine ⟨h.kept.trans hapart hkept, fun hall => ?_, husers, hnames, fun v hv => ?_, fun v hv => ?_⟩
  · obtain rfl := h.idle hall
    exact hidle (hall u hu)
  · have hne : v.username ≠ u.username := by
      rintro heq
      exact hnew (heq ▸ List.mem_map_of_mem hv)
    obtain ⟨hbare, hlog⟩ := hother v (husers v hv) hne
    obtain ⟨ht, ht'⟩ := h.tallies v (List.mem_cons_of_mem _ hv)
    exact ⟨fun id => (ht id).trans (hbare id).symm, fun id => (ht' id).trans (hlog id).symm⟩
  · by_cases heq : v.username = u.username
    · obtain rfl := List.inj_on_of_nodup_map hapart.users hv hu heq
      exact Or.inr hlogin
    · refine (h.met v hv).imp (fun hmem => (List.mem_cons.mp hmem).resolve_left ?_) ?_
      · rintro rfl
        exact heq rfl
      · rintro ⟨a, ha, hname⟩
        obtain ⟨b, hb, -, hname'⟩ := ((hother v hv heq).2 a.id).mpr ⟨a, ha, rfl, hname⟩
        exact ⟨b, hb, hname'⟩

theorem users_converge (hapart : spec.NamesApart) :
    Converges R spec (convergeUsers spec.users spec.adminOrg)
      fun w => ∀ u ∈ spec.users, HasLogin spec u w := by
  intro x
  unfold convergeUsers
  by_cases hempty : spec.users = []
  · rw [if_pos hempty]
    have hnone : ∀ w : Base, ∀ u ∈ spec.users, HasLogin spec u w := by
      intro w u hu
      rw [hempty] at hu
      cases hu
    exact converges_pure hnone x
  rw [if_neg hempty]
  refine wpOk_seq_within searchUsers_spec ?_ ?_
  · rintro w rfl
    exact ⟨.refl R spec w, fun _ => rfl⟩
  rintro existing w rfl hperm
  rw [forEach_eq]
  have htallies : ∀ name, Tallies existing name w := by
    intro name id
    constructor
    · rintro ⟨e, he, rfl, rfl⟩
      obtain ⟨a, ha, rfl⟩ := List.mem_map.mp (hperm.mem_iff.mp he)
      exact ⟨a, ha, rfl, rfl⟩
    · rintro ⟨a, ha, rfl, rfl⟩
      exact ⟨a.shown, hperm.mem_iff.mpr (List.mem_map_of_mem ha), rfl, rfl⟩
  have hstart : Registering R spec w existing spec.users w :=
    ⟨.refl R spec w, fun _ => rfl, fun _ => id, hapart.users,
      fun u _ => ⟨htallies _, htallies _⟩, fun _ => Or.inl⟩
  have hturn : ∀ u rest v, Registering R spec w existing (u :: rest) v →
      wpOk (basics R)
        (fun v' => BasicsKept R spec w v' ∧ ((∀ u ∈ spec.users, HasLogin spec u w) → v' = w))
        (convergeUser existing spec.adminOrg u)
        (fun _ v' => Registering R spec w existing rest v') v := by
    intro u rest v hv
    have hu := hv.users u List.mem_cons_self
    obtain ⟨ht, ht'⟩ := hv.tallies u List.mem_cons_self
    have hstep := convergeUser_spec (R := R) hapart hu ht ht'
    have hboth : wpOk (basics R)
        (fun v' => BasicsKept R spec v v' ∧ (HasLogin spec u v → v' = v))
        (convergeUser existing spec.adminOrg u)
        (fun _ v' => Registering R spec w existing rest v') v :=
      wpOk_mono hstep fun _ v' hkept hnamed =>
        hv.next hapart hkept.1 hkept.2 hnamed.1 hnamed.2
    refine wp_always_mono hboth fun v' hkept => ⟨hv.kept.trans hapart hkept.1, fun hall => ?_⟩
    obtain rfl := hv.idle hall
    exact hkept.2 (hall u hu)
  have hloop := wpOk_forM (Registering R spec w existing) hstart (fun v h => ⟨h.kept, h.idle⟩) hturn
  exact wpOk_mono hloop fun _ v _ h u hu => (h.met u hu).resolve_left List.not_mem_nil

/-! ## One after the other -/

/-- The functions that are called, of which each has a goal. -/
inductive Basic where
  | policy (d : Desired)
  | exchange
  | admin
  | users
  | domain
  | emails

namespace Basic

def converge (spec : DesiredState) : Basic → Script Unit
  | policy d => d.converge
  | exchange => convergeTokenExchangeFeature spec.policies.enableImpersonation
  | admin => convergeAdminIamRoles spec.adminUsername spec.adminIamRoles
  | users => convergeUsers spec.users spec.adminOrg
  | domain => convergeOrgDomain spec.adminOrg
  | emails => convergeUserEmails spec.adminOrg

def Met (R : Resets) (spec : DesiredState) : Basic → Base → Prop
  | policy d => fun w => d.Already R w.policies
  | exchange => fun w => spec.policies.enableImpersonation = true → w.exchange = true
  | admin => Administers spec.adminUsername spec.adminIamRoles
  | users => fun w => ∀ u ∈ spec.users, HasLogin spec u w
  | domain => HasPrimary spec.adminOrg
  | emails => AtDomain spec.adminOrg

/-- In the order in which they are called. -/
def all (spec : DesiredState) : List Basic :=
  [policy (.domain spec.policies.domainPolicy), policy (.login spec.policies.loginPolicy),
    policy (.security spec.policies.enableImpersonation), exchange, admin, users, domain, emails,
    policy (.privacy spec.privacyPolicyLink)]

end Basic

theorem convergeBasics_eq (spec : DesiredState) :
    convergeBasics spec = (Basic.all spec).forM (Basic.converge spec) := by
  have hlast : convergePrivacyPolicy spec.privacyPolicyLink =
      (convergePrivacyPolicy spec.privacyPolicyLink).bind .pure := (Prog.bind_pure_right _).symm
  unfold convergeBasics
  rw [hlast]
  rfl

theorem basic_converges (hapart : spec.NamesApart) {b : Basic} (hb : b ∈ Basic.all spec) :
    Converges R spec (b.converge spec) (b.Met R spec) := by
  cases b with
  | policy d =>
    refine policy_converges ?_
    simpa [Basic.all, DesiredState.desired] using hb
  | exchange => exact exchange_converges _
  | admin => exact admin_converges
  | users => exact users_converge hapart
  | domain => exact domain_converges
  | emails => exact emails_converge hapart

/-- All goals but that of the addresses are kept by whatever keeps what is to be kept. -/
theorem BasicsKept.met (hapart : spec.NamesApart) (h : BasicsKept R spec w w') {b : Basic}
    (hb : b ∈ Basic.all spec) (hne : b ≠ .emails) (hmet : b.Met R spec w) : b.Met R spec w' := by
  cases b with
  | policy d =>
    refine h.policies d ?_ hmet
    simpa [Basic.all, DesiredState.desired] using hb
  | exchange => exact fun henabled => h.exchange (hmet henabled)
  | admin =>
    rintro a ha hname r hr
    obtain ⟨b, hb, hid, hbname⟩ := h.admin hapart ha hname
    obtain ⟨l, hl, hin⟩ := hmet b hb hbname r hr
    rw [← hid]
    rcases h.roles b.id with hsame | ⟨-, l', hl', hmem⟩
    · exact ⟨l, hsame.trans hl, hin⟩
    · exact ⟨l', hl', (hmem r).mpr (Or.inr hr)⟩
  | users =>
    rintro u hu
    obtain ⟨a, ha, hname⟩ := hmet u hu
    obtain ⟨a', ha', hf⟩ := h.people a ha
    refine ⟨a', ha', (hf.named hapart hu (Or.inr hname)).resolve_left fun hbare => ?_⟩
    rcases hf.userName with hsame | ⟨v, hv, hbare', -⟩
    · exact hapart.logins u hu u hu (hname.symm.trans (hsame.symm.trans hbare))
    · exact hapart.logins u hu v hv (hname.symm.trans hbare')
  | domain => exact ⟨h.domains _ hmet.1, h.primary hmet.2⟩
  | emails => exact absurd rfl hne

/-- Nothing but policies are read and replaced. -/
def OnPolicies : {β : Type} → Op β → Prop
  | _, .inl (.getPolicy _) => True
  | _, .inl (.updatePolicy _ _) => True
  | _, _ => False

theorem policy_only (d : Desired) : d.converge.Only OnPolicies := by
  cases d with
  | domain policy =>
    refine Prog.only_bind (only_request trivial) fun found => ?_
    exact Prog.only_bind (only_defined found) fun _ => only_ite trivial (only_request trivial)
  | login policy =>
    refine Prog.only_bind (only_request trivial) fun found => ?_
    exact Prog.only_bind (only_defined found) fun _ => only_ite trivial (only_request trivial)
  | security enable =>
    exact Prog.only_bind (only_request trivial) fun found =>
      only_ite trivial (only_request trivial)
  | privacy link =>
    show (convergePrivacyPolicy link).Only OnPolicies
    unfold convergePrivacyPolicy
    cases link.filter (· ≠ "") with
    | none => trivial
    | some link =>
      refine Prog.only_bind (only_request trivial) fun found => ?_
      exact Prog.only_bind (only_defined found) fun _ => only_ite trivial (only_request trivial)

theorem policy_keeps_emails (d : Desired) :
    Keeps (basics R) d.converge (AtDomain spec.adminOrg) := by
  refine keeps_of_only (policy_only d) fun e w b w' he hw hs => ?_
  rcases e with c | f
  · cases c with
    | getPolicy p | updatePolicy p o =>
      obtain ⟨v, -, rfl⟩ := hs
      exact hw
    | _ => exact he.elim
  · exact he.elim

theorem basics_reconcile (hapart : spec.NamesApart) :
    Reconciles (basics R) (convergeBasics spec) fun w => ∀ b ∈ Basic.all spec, b.Met R spec w := by
  rw [convergeBasics_eq]
  have hkeeps : ∀ a ∈ Basic.all spec, ∀ b ∈ Basic.all spec, a ≠ .emails →
      Keeps (basics R) (b.converge spec) (a.Met R spec) := by
    intro a ha b hb hne w hmet
    have hkept := wp_and_run (basic_converges (R := R) hapart hb w) fun _ _ _ => trivial
    refine wp_always_mono (wp_mono hkept fun r w' hw' _ _ _ => ?_) fun _ _ => trivial
    exact hw'.1.met hapart ha hne hmet
  refine Reconciles.forM_pairwise (fun b hb => ?_) ?_
  · refine reconciles_of_spec fun w => ?_
    exact wp_always_mono (basic_converges hapart hb w) fun _ h => h.2
  · have hall : (Basic.all spec).Pairwise fun a b =>
        a ∈ Basic.all spec ∧ b ∈ Basic.all spec ∧ (a = .emails → ∃ d, b = .policy d) := by
      refine List.Pairwise.imp_of_mem (fun ha hb h => ⟨ha, hb, h⟩) ?_
      simp [Basic.all]
    refine hall.imp fun {a b} h => ?_
    obtain ⟨ha, hb, hlast⟩ := h
    by_cases hemails : a = .emails
    · obtain ⟨d, rfl⟩ := hlast hemails
      subst hemails
      exact policy_keeps_emails d
    · exact hkeeps a ha b hb hemails

theorem basics_kept (hapart : spec.NamesApart) {o : Option (Except Failure Unit)}
    (hrun : Run (basics R) (convergeBasics spec) w o w') : BasicsKept R spec w w' := by
  rw [convergeBasics_eq] at hrun
  have hloop : wpOk (basics R) (BasicsKept R spec w) ((Basic.all spec).forM (Basic.converge spec))
      (fun _ _ => True) w := by
    have hstart : BasicsKept R spec w w ∧ ∀ b ∈ Basic.all spec, b ∈ Basic.all spec :=
      ⟨.refl R spec w, fun _ hb => hb⟩
    refine wpOk_mono (wpOk_forM
      (fun rest v => BasicsKept R spec w v ∧ ∀ b ∈ rest, b ∈ Basic.all spec) hstart
      (fun _ h => h.1) fun b rest v hv => ?_) fun _ _ _ _ => trivial
    have hb := hv.2 b List.mem_cons_self
    have hkept : ∀ v', BasicsKept R spec v v' → BasicsKept R spec w v' := fun _ h =>
      hv.1.trans hapart h
    have hstep := wp_always_mono (basic_converges (R := R) hapart hb v) fun v' h => hkept v' h.1
    exact wpOk_mono hstep fun _ v' h _ => ⟨h, fun c hc => hv.2 c (List.mem_cons_of_mem _ hc)⟩
  exact hloop.1 _ hrun.toCut

theorem basicsMet_iff : BasicsMet R spec w ↔ ∀ b ∈ Basic.all spec, b.Met R spec w := by
  have hall : (∀ b ∈ Basic.all spec, b.Met R spec w) ↔
      (∀ d ∈ spec.desired, d.Already R w.policies) ∧
        (spec.policies.enableImpersonation = true → w.exchange = true) ∧
        Administers spec.adminUsername spec.adminIamRoles w ∧
        (∀ u ∈ spec.users, HasLogin spec u w) ∧ HasPrimary spec.adminOrg w ∧
        AtDomain spec.adminOrg w := by
    simp only [Basic.all, DesiredState.desired, List.forall_mem_cons, List.not_mem_nil,
      IsEmpty.forall_iff, implies_true, and_true, Basic.Met]
    tauto
  rw [hall]
  exact ⟨fun h => ⟨h.policies, h.exchange, h.admin, h.users, h.domain, h.emails⟩,
    fun h => ⟨h.1, h.2.1, h.2.2.1, h.2.2.2.1, h.2.2.2.2.1, h.2.2.2.2.2⟩⟩

/-- However the runs so far ended, no account was lost, renamed or given another password, but for
a user's name without the domain, and one was created only for a user that had none. A run that
completes after them brings about what is asked for, and keeps as much. Every later run, however it
ends and wherever it is cut, changes nothing. -/
theorem basics_settle (hapart : spec.NamesApart) {w₀ : Base}
    {earlier : List (Base × Option (Except Failure Unit))}
    (hbefore : Trace (Run (basics R) (convergeBasics spec)) w₀ earlier w) :
    BasicsKept R spec w₀ w ∧
    ∀ w', Run (basics R) (convergeBasics spec) w (some (.ok ())) w' →
      BasicsMet R spec w' ∧ BasicsKept R spec w₀ w' ∧
      ∀ later u, Trace (Run (basics R) (convergeBasics spec)) w' later u →
        ∀ x ∈ visited later u, x = w' := by
  have hkept : BasicsKept R spec w₀ w :=
    hbefore.keeps (.refl R spec w₀) fun _ hx hs => hx.trans hapart (basics_kept hapart hs)
  refine ⟨hkept, fun w' hrun => ?_⟩
  have hsettled := fun {later u}
      (hafter : Trace (Run (basics R) (convergeBasics spec)) w' later u) =>
    (basics_reconcile hapart).settled hrun hafter fun _ h => ⟨_, h⟩
  refine ⟨basicsMet_iff.mpr (hsettled (.nil _)).1, hkept.trans hapart (basics_kept hapart hrun),
    fun later u hafter => (hsettled hafter).2⟩

end Runs

/-! ## A server that can be run -/

/-- It refuses what gives two accounts one id or one name. -/
def Base.put (w : Base) (l : List Human) : Option Base :=
  if h : (l.map Human.id).Nodup ∧ (l.map Human.userName).Nodup then
    some { w with people := ⟨l, h.1, h.2⟩ }
  else none

theorem put_peopled {w w' : Base} {l : List Human} (h : w.put l = some w') : Peopled l w w' := by
  unfold Base.put at h
  split at h
  · cases h
    exact ⟨_, rfl, rfl⟩
  · cases h

def baseAnswer : {β : Type} → Op β → Base → Option (β × Base)
  | _, .inl (.getPolicy p), w => some (.ok (some (w.policies.current p)), w)
  | _, .inl (.updatePolicy p o), w => some (.ok (), { w with policies := w.policies.put p o })
  | _, .inl .getInstanceFeatures, w =>
    some (.ok [("oidcTokenExchange", .object [("enabled", .bool w.exchange)])], w)
  | _, .inl (.setInstanceFeatures features), w =>
    some (.ok (), w.exchanging ((features.lookup "oidcTokenExchange").getD w.exchange))
  | _, .inl .searchUsers, w => some (.ok (w.people.list.map Human.shown), w)
  | _, .inl (.createHumanUser userName displayName email password), w =>
    (w.put (w.people.list ++
      [⟨toString w.people.list.length, userName, displayName, some email, some password⟩])).map
      fun w' => (.ok (), w')
  | _, .inl (.updateUserName id userName), w =>
    (w.put (w.people.list.map (Human.rename id userName))).map fun w' => (.ok (), w')
  | _, .inl (.updateUserEmail id email), w =>
    (w.put (w.people.list.map (Human.mail id email))).map fun w' => (.ok (), w')
  | _, .inl .searchIamMembers, w =>
    some (.ok (w.people.list.filterMap fun a => (w.roles a.id).map fun l => ⟨a.id, l⟩), w)
  | _, .inl (.addIamMember userId roles), w =>
    if w.roles userId = none then some (.ok (), w.setRoles userId roles) else none
  | _, .inl (.updateIamMember userId roles), w => some (.ok (), w.setRoles userId roles)
  | _, .inl (.listOrgDomains none), w => some (.ok (w.domains.map w.orgDomain), w)
  | _, .inl (.addOrgDomain domain none), w =>
    if domain ∈ w.domains then none
    else some (.ok (), { w with domains := w.domains ++ [domain] })
  | _, .inl (.setPrimaryOrgDomain domain none), w =>
    if domain ∈ w.domains then some (.ok (), { w with primary := some domain }) else none
  | _, .inr (.readTextFile path), w => (w.texts path).map fun t => (.ok t, w)
  | _, _, _ => none

def baseOracle : Oracle Op Base where
  answer e w := baseAnswer e w

theorem exchangeOn_iff (enabled : Bool) :
    ExchangeOn [("oidcTokenExchange", .object [("enabled", .bool enabled)])] ↔ enabled = true := by
  cases enabled <;> simp [ExchangeOn, JsObject.get, Json.get]

theorem baseAnswer_step {β : Type} {e : Op β} {a : β} {w w' : Base}
    (h : baseAnswer e w = some (a, w')) : basicStep plainResets e w a w' := by
  rcases e with c | f
  · cases c with
    | getPolicy p =>
      cases h
      exact ⟨_, ⟨id, ⟨_, rfl, fun _ _ => rfl⟩, rfl⟩, rfl⟩
    | updatePolicy p o =>
      cases h
      exact ⟨_, ⟨id, rfl⟩, rfl⟩
    | getInstanceFeatures =>
      cases h
      exact ⟨id, rfl, fun l hl => Answer.ok.inj hl ▸ exchangeOn_iff _⟩
    | setInstanceFeatures features | updateIamMember userId roles =>
      cases h
      exact ⟨rfl, False.elim⟩
    | searchUsers | listOrgDomains orgId =>
      first | cases h | (cases orgId <;> cases h)
      exact ⟨id, rfl, fun l hl => Answer.ok.inj hl ▸ List.Perm.refl _⟩
    | createHumanUser userName displayName email password =>
      obtain ⟨w'', hput, heq⟩ := Option.map_eq_some_iff.mp h
      cases heq
      exact ⟨id, _, put_peopled hput⟩
    | updateUserName id name | updateUserEmail id name =>
      obtain ⟨w'', hput, heq⟩ := Option.map_eq_some_iff.mp h
      cases heq
      exact ⟨put_peopled hput, False.elim⟩
    | searchIamMembers =>
      cases h
      refine ⟨id, rfl, fun l hl m hm => ?_⟩
      obtain rfl := Answer.ok.inj hl
      obtain ⟨a, -, ha⟩ := List.mem_filterMap.mp hm
      obtain ⟨l, hl, rfl⟩ := Option.map_eq_some_iff.mp ha
      exact hl
    | addIamMember userId roles =>
      simp only [baseAnswer] at h
      split at h
      · cases h
        exact ⟨id, ‹_›, rfl⟩
      · cases h
    | addOrgDomain domain orgId =>
      cases orgId with
      | none =>
        simp only [baseAnswer] at h
        split at h
        · cases h
        · cases h
          exact ⟨id, ‹_›, rfl⟩
      | some id => cases h
    | setPrimaryOrgDomain domain orgId =>
      cases orgId with
      | none =>
        simp only [baseAnswer] at h
        split at h
        · cases h
          exact ⟨⟨‹_›, rfl⟩, False.elim⟩
        · cases h
      | some id => cases h
    | _ => cases h
  · cases f with
    | readTextFile path =>
      obtain ⟨t, ht, heq⟩ := Option.map_eq_some_iff.mp h
      cases heq
      exact ⟨rfl, fun t' ht' => Except.ok.inj ht' ▸ ht⟩
    | _ => cases h

theorem baseOracle_run (n : Nat) (spec : DesiredState) (w : Base) : Run (basics plainResets)
    (convergeBasics spec) w ((convergeBasics spec).exec baseOracle n w).1
    ((convergeBasics spec).exec baseOracle n w).2 := by
  let H : Handler Op Base := ⟨fun e w a w' => baseOracle.answer e w = some (a, w')⟩
  have hrun : Run H (convergeBasics spec) w ((convergeBasics spec).exec baseOracle n w).1
      ((convergeBasics spec).exec baseOracle n w).2 := exec_run (fun _ _ _ _ h => h) _ _ _
  exact hrun.map (f := id) fun _ _ _ _ h => baseAnswer_step h

/-- A site with two accounts of its own. -/
def ownAccounts : DesiredState where
  adminOrg := "example.org"
  adminUsername := "admin"
  orgDomains := ["example.org"]
  users := [⟨"void", "Catch-all", "/void"⟩, ⟨"scan", "Scanner", "/scan"⟩]
  policies := ⟨⟨false, false⟩, ⟨false, true⟩, false, true⟩
  projects := []
  adminIamRoles := ["IAM_END_USER_IMPERSONATOR"]

/-- One of them is there under its old name, beside the administrator with an old address. -/
def oldInstance : Base where
  policies := ⟨fun _ => [], 0⟩
  exchange := false
  people := ⟨[⟨"70", "admin", "Admin", some "admin@old.example", none⟩,
    ⟨"71", "void", "Catch-all", some "void@example.org", some "first"⟩], by decide, by decide⟩
  roles id := if id = "70" then some ["IAM_OWNER"] else none
  domains := ["old.example"]
  primary := some "old.example"
  texts path := if path = "/scan" then some "second\n" else none

/-- What a run leaves that is cut once the old name is a new one. -/
def halfRenamed : Base := ((convergeBasics ownAccounts).exec baseOracle 13 oldInstance).2

theorem basics_settle_sample :
    halfRenamed.people.list = [⟨"70", "admin", "Admin", some "admin@old.example", none⟩,
      ⟨"71", "void@example.org", "Catch-all", some "void@example.org", some "first"⟩] ∧
    BasicsKept plainResets ownAccounts oldInstance halfRenamed ∧
    ∃ w', Run (basics plainResets) (convergeBasics ownAccounts) halfRenamed (some (.ok ())) w' ∧
      w'.people.list = [⟨"70", "admin", "Admin", some "admin@example.org", none⟩,
        ⟨"71", "void@example.org", "Catch-all", some "void@example.org", some "first"⟩,
        ⟨"2", "scan@example.org", "Scanner", some "scan@example.org", some "second"⟩] ∧
      w'.roles "70" = some ["IAM_OWNER", "IAM_END_USER_IMPERSONATOR"] ∧
      BasicsMet plainResets ownAccounts w' ∧ BasicsKept plainResets ownAccounts oldInstance w' ∧
      ∀ o w'', Run (basics plainResets) (convergeBasics ownAccounts) w' o w'' → w'' = w' := by
  have hapart : ownAccounts.NamesApart := ⟨by decide, by decide, by decide⟩
  have hcut := baseOracle_run 13 ownAccounts oldInstance
  have hrun := baseOracle_run 60 ownAccounts halfRenamed
  have hhalf : halfRenamed.people.list =
      [⟨"70", "admin", "Admin", some "admin@old.example", none⟩,
        ⟨"71", "void@example.org", "Catch-all", some "void@example.org", some "first"⟩] := by
    decide +kernel
  have hcomplete : ((convergeBasics ownAccounts).exec baseOracle 60 halfRenamed).1 =
      some (.ok ()) := by
    decide +kernel
  have hpeople : ((convergeBasics ownAccounts).exec baseOracle 60 halfRenamed).2.people.list =
      [⟨"70", "admin", "Admin", some "admin@example.org", none⟩,
        ⟨"71", "void@example.org", "Catch-all", some "void@example.org", some "first"⟩,
        ⟨"2", "scan@example.org", "Scanner", some "scan@example.org", some "second"⟩] := by
    decide +kernel
  have hroles : ((convergeBasics ownAccounts).exec baseOracle 60 halfRenamed).2.roles "70" =
      some ["IAM_OWNER", "IAM_END_USER_IMPERSONATOR"] := by
    decide +kernel
  rw [hcomplete] at hrun
  obtain ⟨hkept, hsettle⟩ := basics_settle hapart (.cons hcut (.nil _))
  obtain ⟨hmet, hkept', hafter⟩ := hsettle _ hrun
  refine ⟨hhalf, hkept, _, hrun, hpeople, hroles, hmet, hkept', fun o w'' h => ?_⟩
  exact hafter _ _ (.cons h (.nil _)) _ (Trace.last_mem _ _)

end Foundrix.ZitadelConfigure
