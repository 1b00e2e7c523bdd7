import MinimalistOS.Properties.Login

/-!
# Deleting a user

* `securityDeleteUser_cases` — what `security_delete_user` can do
* `delete_removes_iff` — after which calls a user id is gone

The search takes the first entry with the user id and does not look at `active`, and one entry is
deactivated. Several names may have the same user id, so another active entry may be left; and an
entry that was deleted before is found again.
-/

namespace MinimalistOS

open Infra

variable {s : Security}

/-- What is promised of `security_delete_user(uid)`: if it returns `0`, an active entry has had the
user id, none has it any more, and no login yields it. -/
structure DeletesUser (s : Security) (uid : Word) : Prop where
  existed : (securityDeleteUser s uid).2 = 0 →
    ∃ i < s.userCount, (s.user i).active = true ∧ (s.user i).uid = uid
  removed : (securityDeleteUser s uid).2 = 0 → ∀ i < (securityDeleteUser s uid).1.userCount,
    ((securityDeleteUser s uid).1.user i).active = true →
      ((securityDeleteUser s uid).1.user i).uid ≠ uid
  login : (securityDeleteUser s uid).2 = 0 → ∀ username password,
    (securityAuthenticateUser (securityDeleteUser s uid).1 (some username) (some password)).2 = 0 →
      (securityAuthenticateUser (securityDeleteUser s uid).1 (some username)
        (some password)).1.currentContext.uid ≠ uid

/-- Of the entries with the user id, the first one is active and no other. -/
def OnlyFirstActive (s : Security) (uid : Word) : Prop :=
  ∀ i < s.userCount, (s.user i).uid = uid →
    ((s.user i).active = true ↔ ∀ j < i, (s.user j).uid ≠ uid)

/-- What `security_delete_user` can do for root, with another user id than root's. -/
theorem securityDeleteUser_cases (hroot : s.isRoot = true) {uid : Word} (huid : uid ≠ rootUid) :
    ((∀ i < s.userCount, (s.user i).uid ≠ uid) ∧ securityDeleteUser s uid = (s, -1)) ∨
      ∃ i < s.userCount, (s.user i).uid = uid ∧ (∀ j < i, (s.user j).uid ≠ uid) ∧
        (securityDeleteUser s uid).2 = 0 ∧ (securityDeleteUser s uid).1.isRoot = true ∧
        (securityDeleteUser s uid).1.userCount = s.userCount ∧
        ∀ j, (securityDeleteUser s uid).1.user j
          = if j = i then { s.user i with active := false } else s.user j := by
  have hne : (uid == rootUid) = false := beq_eq_false_iff_ne.mpr huid
  simp only [securityDeleteUser, hroot, if_true, hne, Bool.false_eq_true, if_false]
  cases hfind : findSlot s.userDb (fun e => e.uid == uid) 0 s.userCount with
  | none =>
    refine Or.inl ⟨fun i hi => ?_, rfl⟩
    exact beq_eq_false_iff_ne.mp (findSlot_eq_none.mp hfind i hi)
  | some i =>
    obtain ⟨hi, hmatch, hfirst⟩ := findSlot_eq_some.mp hfind
    refine Or.inr ⟨i, hi, beq_iff_eq.mp hmatch, fun j hj => ?_, rfl, hroot, rfl, ?_⟩
    · exact beq_eq_false_iff_ne.mp (hfirst j hj)
    · exact slot_modifySlot s.userDb (Nat.lt_of_lt_of_le hi s.user_le) _

/-- A login yields the user id of an active entry. -/
theorem login_uid (hroot : s.isRoot = true) {username password : CString}
    (h : (securityAuthenticateUser s (some username) (some password)).2 = 0) :
    ∃ i < s.userCount, (s.user i).active = true ∧
      (securityAuthenticateUser s (some username) (some password)).1.currentContext.uid
        = (s.user i).uid := by
  obtain ⟨i, hi, hadm, heq⟩ :=
    securityAuthenticateUser_of_recognized (securityAuthenticateUser_eq_zero.mp h)
  refine ⟨i, hi, (admits_iff.mp hadm).1, ?_⟩
  rw [heq]
  simp only [securitySetContext, hroot, if_true]

/-- With the first entry of the user id known, the condition is about it and about the others. -/
theorem onlyFirstActive_iff {uid : Word} {i : Nat} (hi : i < s.userCount)
    (hmatch : (s.user i).uid = uid) (hfirst : ∀ j < i, (s.user j).uid ≠ uid) :
    OnlyFirstActive s uid ↔ (s.user i).active = true ∧
      ∀ j < s.userCount, j ≠ i → (s.user j).active = true → (s.user j).uid ≠ uid := by
  constructor
  · intro h
    refine ⟨(h i hi hmatch).mpr hfirst, fun j hj hji hactive hjuid => ?_⟩
    have hjfirst := (h j hj hjuid).mp hactive
    rcases Nat.lt_or_gt_of_ne hji with hlt | hgt
    · exact hfirst j hlt hjuid
    · exact hjfirst i hgt hmatch
  · rintro ⟨hactive, hothers⟩ j hj hjuid
    by_cases hji : j = i
    · subst hji
      exact iff_of_true hactive hfirst
    · refine iff_of_false (fun hjactive => hothers j hj hji hjactive hjuid) fun hnone => ?_
      rcases Nat.lt_or_gt_of_ne hji with hlt | hgt
      · exact hfirst j hlt hjuid
      · exact hnone i hgt hmatch

/-- A refused call promises nothing. -/
theorem deletesUser_of_refused {uid : Word} (h : (securityDeleteUser s uid).2 ≠ 0) :
    DeletesUser s uid :=
  ⟨fun hret => absurd hret h, fun hret => absurd hret h, fun hret => absurd hret h⟩

/-- **When a deletion removes the user id**, in one state. -/
theorem deletesUser_iff (hroot : s.isRoot = true) (uid : Word) :
    DeletesUser s uid ↔ uid = rootUid ∨ OnlyFirstActive s uid := by
  by_cases huid : uid = rootUid
  · refine iff_of_true (deletesUser_of_refused ?_) (Or.inl huid)
    subst huid
    simp [securityDeleteUser, hroot]
  · rw [or_iff_right huid]
    rcases securityDeleteUser_cases hroot huid with
      ⟨hnone, heq⟩ | ⟨i, hi, hmatch, hfirst, hret, hroot', hcount, huser⟩
    · refine iff_of_true (deletesUser_of_refused ?_) fun j hj hjuid => absurd hjuid (hnone j hj)
      rw [heq]
      exact fun h => by cases h
    · rw [onlyFirstActive_iff hi hmatch hfirst]
      constructor
      · intro h
        -- no other entry is active after the call, so none was before
        have hothers : ∀ j < s.userCount, j ≠ i → (s.user j).active = true →
            (s.user j).uid ≠ uid := by
          intro j hj hji
          have hremoved := h.removed hret j (hcount ▸ hj)
          rwa [huser, if_neg hji] at hremoved
        obtain ⟨k, hk, hactive, hkuid⟩ := h.existed hret
        have hki : k = i := by
          by_contra hki
          exact hothers k hk hki hactive hkuid
        subst hki
        exact ⟨hactive, hothers⟩
      · rintro ⟨hactive, hothers⟩
        have hgone : ∀ j < (securityDeleteUser s uid).1.userCount,
            ((securityDeleteUser s uid).1.user j).active = true →
              ((securityDeleteUser s uid).1.user j).uid ≠ uid := by
          intro j hj
          rw [hcount] at hj
          rw [huser]
          by_cases hji : j = i
          · rw [if_pos hji]
            exact fun hfalse => by cases hfalse
          · rw [if_neg hji]
            exact hothers j hj hji
        refine ⟨fun _ => ⟨i, hi, hactive, hmatch⟩, fun _ => hgone,
          fun _ username password hin => ?_⟩
        obtain ⟨j, hj, hjactive, hjuid⟩ := login_uid hroot' hin
        rw [hjuid]
        exact hgone j hj hjactive

/-! ## Runs -/

/-- `security_create_user`, `security_set_user_password` and `security_delete_user`. -/
def SecurityCall.IsUserCall : SecurityCall → Prop
  | .createUser _ _ _ | .setUserPassword _ _ | .deleteUser _ => True
  | .setContext _ _ | .setPermission _ _ _ _ | .authenticateUser _ _ | .sysSetuid _
  | .sysSetgid _ | .sysChmod _ _ | .sysChown _ _ _ => False

/-- These calls do not change the identity. -/
theorem isRoot_step {call : SecurityCall} (hcall : call.IsUserCall) :
    (s.step call).1.isRoot = s.isRoot := by
  cases call with
  | createUser username uid gid =>
    show (securityCreateUser s username uid gid).1.isRoot = s.isRoot
    unfold securityCreateUser
    repeat' split
    all_goals rfl
  | setUserPassword uid password =>
    show (securitySetUserPassword s uid password).1.isRoot = s.isRoot
    unfold securitySetUserPassword
    repeat' split
    all_goals rfl
  | deleteUser uid =>
    show (securityDeleteUser s uid).1.isRoot = s.isRoot
    unfold securityDeleteUser
    repeat' split
    all_goals rfl
  | setContext uid gid => exact hcall.elim
  | setPermission resource uid gid perm => exact hcall.elim
  | authenticateUser username password => exact hcall.elim
  | sysSetuid uid => exact hcall.elim
  | sysSetgid gid => exact hcall.elim
  | sysChmod path mode => exact hcall.elim
  | sysChown path uid gid => exact hcall.elim

/--
**A deletion removes the user id when the first entry with it is the only active one.**

After every sequence of `security_create_user`, `security_set_user_password` and
`security_delete_user` calls as root after `security_init`, and for every user id: the deletion
keeps its promise if and only if the user id is root's, which is refused, or of the entries with it
the first one is active and no other.
-/
theorem delete_removes_iff (calls : List SecurityCall) (hcalls : ∀ call ∈ calls, call.IsUserCall)
    (uid : Word) :
    DeletesUser (run Security.step securityInit calls) uid ↔
      uid = rootUid ∨ OnlyFirstActive (run Security.step securityInit calls) uid := by
  have hroot : (run Security.step securityInit calls).isRoot = true := by
    refine inv_run Security.step (I := fun s => s.isRoot = true)
      (P := fun _ call => call.IsUserCall) (fun s call hs hcall => ?_) isRoot_securityInit
      (along_of_forall Security.step _ fun call hcall _ => hcalls call hcall)
    rw [isRoot_step hcall]
    exact hs
  exact deletesUser_iff hroot uid

/-- `"eve"`. -/
def eveName : CString := ⟨[0x65, 0x76, 0x65], by simp⟩

theorem delete_removes_bob :
    (securityDeleteUser (run Security.step securityInit [.createUser (some bobName) 1000 1000])
        1000).2 = 0 ∧
      DeletesUser (run Security.step securityInit [.createUser (some bobName) 1000 1000]) 1000 := by
  refine ⟨by decide +kernel, (delete_removes_iff [.createUser (some bobName) 1000 1000]
    (List.forall_mem_singleton.mpr trivial) 1000).mpr (Or.inr ?_)⟩
  unfold OnlyFirstActive
  decide +kernel

/-- Two names with the user id 1000: after the deletion, which returns `0`, the second one is
active. And a second deletion of the same user id returns `0` with no active entry. -/
theorem delete_leaves_user :
    ¬ DeletesUser (run Security.step securityInit
        [.createUser (some bobName) 1000 1000, .createUser (some eveName) 1000 1000]) 1000 ∧
      ¬ DeletesUser (run Security.step securityInit
        [.createUser (some bobName) 1000 1000, .deleteUser 1000]) 1000 := by
  constructor
  · intro h
    have hremoved := h.removed (by decide +kernel) 2 (by decide +kernel)
    revert hremoved
    decide +kernel
  · intro h
    have hexisted := h.existed (by decide +kernel)
    revert hexisted
    decide +kernel

end MinimalistOS
