import MinimalistOS.Kernel.Security

/-!
# Privileges and access control

* `Effect`, `step_effect` — what a call can do to the state
* `no_escalation` — the context is always that of its user id, and without root nothing changes
  but one's own password
* `securityCheckFileAccess_eq_zero` — exactly when an access is granted
* `file_access_granted` — a grant is backed by an entry of the caller, of the caller's group or of
  root, or by the caller's own permissions

An entry that belongs to root decides for every caller. The entries of `security_init` are of this
kind, so that they are what everybody may do with `/dev`, `/proc` and `/sys`.
-/

namespace MinimalistOS

open Infra

variable {s : Security}

/-! ## What a call can do -/

theorem isRoot_iff : s.isRoot = true ↔ s.currentContext.uid = rootUid := beq_iff_eq

theorem isRoot_eq_false : s.isRoot = false ↔ s.currentContext.uid ≠ rootUid := beq_eq_false_iff_ne

/-- The machine starts as root. -/
theorem isRoot_securityInit : securityInit.isRoot = true := by decide +kernel

/-- The context that belongs to a user and a group. -/
def contextOf (uid gid : Word) : SecurityContext where
  uid := uid
  gid := gid
  euid := uid
  egid := gid
  permissions := if uid == rootUid then permAll else permRead ||| permExecute

/-- What a call can do to the state. -/
inductive Effect (s : Security) : SecurityCall → Security → Prop
  | nothing (call : SecurityCall) : Effect s call s
  | context (call : SecurityCall) (uid gid : Word) (hroot : s.isRoot = true) :
    Effect s call { s with currentContext := contextOf uid gid }
  | acl (call : SecurityCall) (table : Vector AclEntry 64) (count : Nat) (hle : count ≤ 64)
    (hroot : s.isRoot = true) :
    Effect s call { s with aclTable := table, aclCount := count, acl_le := hle }
  | created (username : CString) (uid gid : Word) (hroom : s.userCount < 16)
    (hroot : s.isRoot = true)
    (hnew : findSlot s.userDb (UserEntry.named username) 0 s.userCount = none) :
    Effect s (.createUser (some username) uid gid) (addUser s hroom username uid gid)
  | deleted (uid : Word) (i : Nat) (hroot : s.isRoot = true)
    (hi : findSlot s.userDb (fun e => e.uid == uid) 0 s.userCount = some i) :
    Effect s (.deleteUser uid)
      { s with userDb := modifySlot s.userDb i fun e => { e with active := false } }
  | password (uid : Word) (i : Nat) (pw : CString)
    (hmay : s.isRoot = true ∨ s.currentContext.uid = uid)
    (hi : findSlot s.userDb (UserEntry.activeWith uid) 0 s.userCount = some i) :
    Effect s (.setUserPassword uid (some pw)) (storePassword s i pw)

theorem effect_setContext (s : Security) (call : SecurityCall) (uid gid : Word) :
    Effect s call (securitySetContext s uid gid).1 := by
  rw [securitySetContext]
  split
  · next hroot => exact Effect.context call uid gid hroot
  · exact Effect.nothing call

theorem effect_setPermission (s : Security) (call : SecurityCall) (resource : Option CString)
    (uid gid perm : Word) :
    Effect s call (securitySetPermission s resource uid gid perm).1 := by
  unfold securitySetPermission
  split
  · exact Effect.nothing call
  · split
    · split
      · next hroot =>
        split
        · exact Effect.acl call _ s.aclCount s.acl_le hroot
        · next hlt _ _ => exact Effect.acl call _ (s.aclCount + 1) hlt hroot
      · exact Effect.nothing call
    · exact Effect.nothing call

theorem effect_createUser (s : Security) (username : Option CString) (uid gid : Word) :
    Effect s (.createUser username uid gid) (securityCreateUser s username uid gid).1 := by
  unfold securityCreateUser
  split
  · exact Effect.nothing _
  · split
    · next hroom =>
      split
      · next hroot =>
        split
        · exact Effect.nothing _
        · next hnew => exact Effect.created _ uid gid hroom hroot hnew
      · exact Effect.nothing _
    · exact Effect.nothing _

theorem effect_deleteUser (s : Security) (uid : Word) :
    Effect s (.deleteUser uid) (securityDeleteUser s uid).1 := by
  unfold securityDeleteUser
  split
  · next hroot =>
    split
    · exact Effect.nothing _
    · split
      · next i hi => exact Effect.deleted uid i hroot hi
      · exact Effect.nothing _
  · exact Effect.nothing _

theorem effect_setUserPassword (s : Security) (uid : Word) (password : Option CString) :
    Effect s (.setUserPassword uid password) (securitySetUserPassword s uid password).1 := by
  unfold securitySetUserPassword
  split
  · exact Effect.nothing _
  · split
    · next hmay =>
      split
      · next i hi => exact Effect.password uid i _ (by simpa using hmay) hi
      · exact Effect.nothing _
    · exact Effect.nothing _

theorem effect_authenticateUser (s : Security) (call : SecurityCall)
    (username password : Option CString) :
    Effect s call (securityAuthenticateUser s username password).1 := by
  unfold securityAuthenticateUser
  split
  · split
    · exact effect_setContext s call _ _
    · exact Effect.nothing call
  · exact Effect.nothing call

/-- **Every call has one of the effects above.** -/
theorem step_effect (s : Security) (call : SecurityCall) : Effect s call (s.step call).1 := by
  cases call with
  | setContext uid gid => exact effect_setContext s _ uid gid
  | setPermission resource uid gid perm => exact effect_setPermission s _ resource uid gid perm
  | createUser username uid gid => exact effect_createUser s username uid gid
  | deleteUser uid => exact effect_deleteUser s uid
  | setUserPassword uid password => exact effect_setUserPassword s uid password
  | authenticateUser username password => exact effect_authenticateUser s _ username password
  | sysSetuid uid => exact effect_setContext s _ uid _
  | sysSetgid gid => exact effect_setContext s _ _ gid
  | sysChmod path mode => exact effect_setPermission s _ path _ _ mode
  | sysChown path uid gid => exact effect_setPermission s _ path uid gid _

/-! ## No escalation -/

/-- The effective ids are the real ones, and the permissions are those of the user id. -/
def SecurityContext.Proper (ctx : SecurityContext) : Prop :=
  ctx.euid = ctx.uid ∧ ctx.egid = ctx.gid ∧
    ctx.permissions = if ctx.uid = rootUid then permAll else permRead ||| permExecute

theorem contextOf_proper (uid gid : Word) : (contextOf uid gid).Proper := by
  refine ⟨rfl, rfl, ?_⟩
  by_cases h : uid = rootUid
  · simp [contextOf, h]
  · simp [contextOf, h]

theorem Effect.proper {s s' : Security} {call : SecurityCall} (h : Effect s call s')
    (hs : s.currentContext.Proper) : s'.currentContext.Proper := by
  cases h with
  | nothing _ => exact hs
  | context _ uid gid hroot => exact contextOf_proper uid gid
  | acl _ table count hle hroot => exact hs
  | created username uid gid hroom hroot hnew => exact hs
  | deleted uid i hroot hi => exact hs
  | password uid i pw hmay hi => exact hs

theorem run_proper (s : Security) (calls : List SecurityCall) (hs : s.currentContext.Proper) :
    (run Security.step s calls).currentContext.Proper :=
  inv_run_of_forall Security.step (I := fun s => s.currentContext.Proper)
    (fun s call h => (step_effect s call).proper h) calls hs

/-- `security_init` as calls on the cleared tables. -/
theorem securityInit_eq : securityInit = run Security.step Security.cleared
    [.createUser (some rootName) rootUid rootUid,
      .setPermission (some devPath) rootUid rootUid (permRead ||| permWrite ||| permAdmin),
      .setPermission (some procPath) rootUid rootUid (permRead ||| permAdmin),
      .setPermission (some sysPath) rootUid rootUid (permRead ||| permAdmin)] := by
  simp only [securityInit, run_cons, run_nil, Security.step, Prod.map_fst, id_eq]

/-- From `s` to `s'` nothing has changed but passwords of active users with the user id of the
caller in `s`. -/
structure OwnPasswordsOnly (s s' : Security) : Prop where
  context : s'.currentContext = s.currentContext
  aclTable : s'.aclTable = s.aclTable
  aclCount : s'.aclCount = s.aclCount
  userCount : s'.userCount = s.userCount
  entry : ∀ i, s'.user i = { s.user i with password := (s'.user i).password }
  password : ∀ i, (s'.user i).password ≠ (s.user i).password →
    (s.user i).active = true ∧ (s.user i).uid = s.currentContext.uid

theorem OwnPasswordsOnly.refl (s : Security) : OwnPasswordsOnly s s :=
  ⟨rfl, rfl, rfl, rfl, fun _ => rfl, fun _ h => absurd rfl h⟩

theorem user_storePassword {i : Nat} (hi : i < 16) (s : Security) (pw : CString) (j : Nat) :
    (storePassword s i pw).user j = if j = i then
      { s.user i with password := (strncpy (s.user i).password pw.bytes 31).setIfInBounds 31 0 }
      else s.user j :=
  slot_modifySlot s.userDb hi _ j

/-- One more call of somebody other than root. -/
theorem OwnPasswordsOnly.step {s s' s'' : Security} {call : SecurityCall}
    (hroot : s.isRoot = false) (h : OwnPasswordsOnly s s') (he : Effect s' call s'') :
    OwnPasswordsOnly s s'' := by
  have hroot' : s'.isRoot ≠ true := by
    rw [Ne, isRoot_iff, h.context, ← isRoot_iff, hroot]
    exact Bool.false_ne_true
  cases he with
  | nothing _ => exact h
  | context _ uid gid hr => exact absurd hr hroot'
  | acl _ table count hle hr => exact absurd hr hroot'
  | created username uid gid hroom hr hnew => exact absurd hr hroot'
  | deleted uid i hr hi => exact absurd hr hroot'
  | password uid i pw hmay hi =>
    obtain rfl : s'.currentContext.uid = uid := hmay.resolve_left hroot'
    obtain ⟨hlt, hactive, -⟩ := findSlot_eq_some.mp hi
    have huser := user_storePassword (Nat.lt_of_lt_of_le hlt s'.user_le) s' pw
    -- the entry is the caller's own in `s'`, and so it was in `s`
    have hown : (s.user i).active = true ∧ (s.user i).uid = s.currentContext.uid := by
      have hi' : (s'.user i).activeWith s'.currentContext.uid = true := hactive
      rw [h.entry i, UserEntry.activeWith, h.context] at hi'
      simpa [and_comm] using hi'
    refine ⟨h.context, h.aclTable, h.aclCount, h.userCount, fun j => ?_, fun j hj => ?_⟩
    · rw [huser]
      by_cases hji : j = i
      · subst hji
        rw [if_pos rfl, h.entry j]
      · rw [if_neg hji]
        exact h.entry j
    · by_cases hji : j = i
      · rw [hji]
        exact hown
      · rw [huser, if_neg hji] at hj
        exact h.password j hj

/--
**No privilege escalation.**

After `security_init`, whatever is called, the context is always the one that belongs to its user
id. And from a state in which the caller is not root, whatever is called next, nothing changes but
passwords of active users with the caller's own user id.
-/
theorem no_escalation :
    (∀ calls, (run Security.step securityInit calls).currentContext.Proper) ∧
    (∀ s calls, s.currentContext.uid ≠ rootUid →
      OwnPasswordsOnly s (run Security.step s calls)) := by
  constructor
  · intro calls
    rw [securityInit_eq]
    exact run_proper _ calls (run_proper _ _ (contextOf_proper rootUid rootUid))
  · intro s calls hs
    exact inv_run_of_forall Security.step (I := OwnPasswordsOnly s)
      (fun s' call h => h.step (isRoot_eq_false.mpr hs) (step_effect s' call)) calls
      (OwnPasswordsOnly.refl s)

theorem no_escalation_user :
    (1000 : Word) ≠ rootUid ∧
      OwnPasswordsOnly { securityInit with currentContext := contextOf 1000 1000 }
        (run Security.step { securityInit with currentContext := contextOf 1000 1000 }
          [.sysSetuid 0, .authenticateUser (some rootName) (some ⟨[], by simp⟩)]) :=
  ⟨by decide, no_escalation.2 _ _ (by decide)⟩

/-! ## Access to files -/

/-- All required bits are there. -/
def Permits (permissions required : Word) : Prop := permissions &&& required = required

instance (permissions required : Word) : Decidable (Permits permissions required) :=
  inferInstanceAs (Decidable (_ = _))

theorem isFor_iff {resource : CString} {e : AclEntry} :
    e.isFor resource = true ↔ CString.ofArray e.resource = resource := by
  rw [AclEntry.isFor, beq_iff_eq, strcmp_eq_zero, CString.ofBytes_bytes]
  rfl

theorem decides_iff {filename : CString} {ctx : SecurityContext} {e : AclEntry} :
    e.decides filename ctx = true ↔ CString.ofArray e.resource = filename ∧
      (e.uid = ctx.uid ∨ e.gid = ctx.gid ∨ e.uid = rootUid) := by
  simp [AclEntry.decides, isFor_iff, or_assoc]

theorem grant_eq_zero {permissions required : Word} :
    (if permissions &&& required == required then (0 : Int) else -1) = 0 ↔
      Permits permissions required := by
  by_cases h : permissions &&& required = required
  · simp [Permits, h]
  · simp [Permits, h]

/-- **An access is granted when the first entry that decides permits it, or none decides and the
caller's own permissions do.** -/
theorem securityCheckFileAccess_eq_zero (s : Security) (filename : CString) (required : Word) :
    securityCheckFileAccess s (some filename) required = 0 ↔
      (∃ i < s.aclCount, (s.acl i).decides filename s.currentContext = true ∧
        (∀ j < i, (s.acl j).decides filename s.currentContext = false) ∧
        Permits (s.acl i).permissions required) ∨
      ((∀ i < s.aclCount, (s.acl i).decides filename s.currentContext = false) ∧
        Permits s.currentContext.permissions required) := by
  rw [securityCheckFileAccess]
  split
  · next i hi =>
    obtain ⟨hlt, hdec, hfirst⟩ := findSlot_eq_some.mp hi
    rw [grant_eq_zero]
    constructor
    · intro h
      exact Or.inl ⟨i, hlt, hdec, hfirst, h⟩
    · rintro (⟨j, -, hj, hjfirst, h⟩ | ⟨hnone, -⟩)
      · -- two first entries are the same entry
        rcases Nat.lt_trichotomy i j with hij | rfl | hij
        · exact Bool.noConfusion (hdec.symm.trans (hjfirst i hij))
        · exact h
        · exact Bool.noConfusion (hj.symm.trans (hfirst j hij))
      · exact Bool.noConfusion (hdec.symm.trans (hnone i hlt))
  · next hi =>
    have hnone := findSlot_eq_none.mp hi
    rw [securityCheckPermission, grant_eq_zero]
    constructor
    · intro h
      exact Or.inr ⟨hnone, h⟩
    · rintro (⟨j, hlt, hj, -, -⟩ | ⟨-, h⟩)
      · exact Bool.noConfusion (hj.symm.trans (hnone j hlt))
      · exact h

/-- A `security_set_permission` call. -/
structure Grant where
  resource : Option CString
  uid : Word
  gid : Word
  perm : Word

/-- The call of a grant. -/
def Grant.call (g : Grant) : SecurityCall := .setPermission g.resource g.uid g.gid g.perm

/-- A state with the access control list that the grants build after `security_init`. -/
def grantedBy (grants : List Grant) (ctx : SecurityContext) : Security :=
  { run Security.step securityInit (grants.map Grant.call) with currentContext := ctx }

/-- An entry for the resource backs the access of a caller for whom `who` is true of the entry. -/
def BackedBy (s : Security) (resource : CString) (required : Word) (who : AclEntry → Prop) :
    Prop :=
  ∃ i < s.aclCount, CString.ofArray (s.acl i).resource = resource ∧ who (s.acl i) ∧
    Permits (s.acl i).permissions required

instance (s : Security) (resource : CString) (required : Word) (who : AclEntry → Prop)
    [DecidablePred who] : Decidable (BackedBy s resource required who) :=
  inferInstanceAs (Decidable (∃ i < s.aclCount, _))

/--
**A granted access is backed.**

For every access control list built by `security_set_permission` after `security_init` and every
context: an access that is granted is backed by an entry for the resource that belongs to the
caller, to the caller's group or to root, or by the caller's own permissions.
-/
theorem file_access_granted (grants : List Grant) (ctx : SecurityContext) (resource : CString)
    (required : Word)
    (h : securityCheckFileAccess (grantedBy grants ctx) (some resource) required = 0) :
    BackedBy (grantedBy grants ctx) resource required
        (fun e => e.uid = ctx.uid ∨ e.gid = ctx.gid ∨ e.uid = rootUid) ∨
      Permits ctx.permissions required := by
  rcases (securityCheckFileAccess_eq_zero _ resource required).mp h with
    ⟨i, hi, hdec, -, hperm⟩ | ⟨-, hperm⟩
  · obtain ⟨hres, hwho⟩ := decides_iff.mp hdec
    exact Or.inl ⟨i, hi, hres, hwho, hperm⟩
  · exact Or.inr hperm

theorem file_access_granted_proc :
    securityCheckFileAccess (grantedBy [] (contextOf 1000 1000)) (some procPath) permRead = 0 ∧
      (BackedBy (grantedBy [] (contextOf 1000 1000)) procPath permRead
          (fun e => e.uid = 1000 ∨ e.gid = 1000 ∨ e.uid = rootUid) ∨
        Permits (contextOf 1000 1000).permissions permRead) :=
  ⟨by decide +kernel, file_access_granted [] (contextOf 1000 1000) procPath permRead
    (by decide +kernel)⟩

/-- User 1000 is granted administration of `/proc`, with no entry of its own or its group's and
no such permission. -/
theorem file_access_overgrants :
    securityCheckFileAccess (grantedBy [] (contextOf 1000 1000)) (some procPath) permAdmin = 0 ∧
      (contextOf 1000 1000).uid ≠ rootUid ∧
      ¬ (BackedBy (grantedBy [] (contextOf 1000 1000)) procPath permAdmin
            (fun e => e.uid = (contextOf 1000 1000).uid ∨ e.gid = (contextOf 1000 1000).gid) ∨
          Permits (contextOf 1000 1000).permissions permAdmin) := by
  decide +kernel

end MinimalistOS
