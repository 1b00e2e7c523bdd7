import MinimalistOS.Properties.Security

/-!
# Logging in

* `securityAuthenticateUser_eq_zero` — whom `security_authenticate_user` lets in
* `Effect.later`, `run_password_eq` — what becomes of a user's entry
* `accepts_last_password_iff` — exactly when the password set last is the one that is accepted
* `login_changes_identity_iff` — exactly when a login changes the identity

Names and passwords are cut to 31 bytes when they are stored and compared in full, passwords are
set by user id and asked for by name, and user ids need not be unique. And the context is changed
by `security_set_context`, which refuses everybody but root.
-/

namespace MinimalistOS

open Infra

variable {s : Security}

/-! ## Who is let in -/

theorem named_iff {username : CString} {e : UserEntry} :
    e.named username = true ↔ CString.ofArray e.username = username := by
  rw [UserEntry.named, beq_iff_eq, strcmp_eq_zero, CString.ofBytes_bytes]
  rfl

theorem admits_iff {username password : CString} {e : UserEntry} :
    e.admits username password = true ↔ e.active = true ∧
      CString.ofArray e.username = username ∧ CString.ofArray e.password = password := by
  have hpw : (strcmp e.password.toList password.bytes == 0) = true ↔
      CString.ofArray e.password = password := by
    rw [beq_iff_eq, strcmp_eq_zero, CString.ofBytes_bytes]
    rfl
  rw [UserEntry.admits, Bool.and_eq_true, Bool.and_eq_true, named_iff, hpw, and_assoc]

theorem activeWith_iff {uid : Word} {e : UserEntry} :
    e.activeWith uid = true ↔ e.uid = uid ∧ e.active = true := by
  rw [UserEntry.activeWith, Bool.and_eq_true, beq_iff_eq]

/-- Some entry lets this name and password in. -/
def Recognized (s : Security) (username password : CString) : Prop :=
  ∃ i < s.userCount, (s.user i).admits username password = true

instance (s : Security) (username password : CString) :
    Decidable (Recognized s username password) :=
  inferInstanceAs (Decidable (∃ i < s.userCount, _))

theorem securityAuthenticateUser_of_recognized {username password : CString}
    (h : Recognized s username password) :
    ∃ i < s.userCount, (s.user i).admits username password = true ∧
      securityAuthenticateUser s (some username) (some password)
        = ((securitySetContext s (s.user i).uid (s.user i).gid).1, 0) := by
  rw [securityAuthenticateUser]
  split
  · next i hi =>
    obtain ⟨hlt, hadm, -⟩ := findSlot_eq_some.mp hi
    exact ⟨i, hlt, hadm, rfl⟩
  · next hi =>
    obtain ⟨i, hlt, hadm⟩ := h
    exact Bool.noConfusion (hadm.symm.trans (findSlot_eq_none.mp hi i hlt))

theorem securityAuthenticateUser_of_not_recognized {username password : CString}
    (h : ¬ Recognized s username password) :
    securityAuthenticateUser s (some username) (some password) = (s, -1) := by
  rw [securityAuthenticateUser]
  split
  · next i hi =>
    obtain ⟨hlt, hadm, -⟩ := findSlot_eq_some.mp hi
    exact absurd ⟨i, hlt, hadm⟩ h
  · rfl

theorem securityAuthenticateUser_eq_zero {username password : CString} :
    (securityAuthenticateUser s (some username) (some password)).2 = 0 ↔
      Recognized s username password := by
  by_cases h : Recognized s username password
  · obtain ⟨i, -, -, heq⟩ := securityAuthenticateUser_of_recognized h
    exact iff_of_true (by rw [heq]) h
  · rw [securityAuthenticateUser_of_not_recognized h]
    exact iff_of_false (fun h0 => by cases h0) h

theorem securityAuthenticateUser_eq_neg_one {username password : CString} :
    (securityAuthenticateUser s (some username) (some password)).2 = -1 ↔
      ¬ Recognized s username password := by
  by_cases h : Recognized s username password
  · obtain ⟨i, -, -, heq⟩ := securityAuthenticateUser_of_recognized h
    rw [heq]
    exact iff_of_false (fun h0 => by cases h0) (not_not_intro h)
  · rw [securityAuthenticateUser_of_not_recognized h]
    exact iff_of_true rfl h

/-- The name is let in with this password and with no other. -/
def AcceptsOnly (s : Security) (username password : CString) : Prop :=
  (securityAuthenticateUser s (some username) (some password)).2 = 0 ∧
    ∀ password', password' ≠ password →
      (securityAuthenticateUser s (some username) (some password')).2 = -1

/-- The active entries with that name, of which there is one, all have that password. -/
theorem acceptsOnly_iff {username password : CString} :
    AcceptsOnly s username password ↔
      (∃ i < s.userCount, (s.user i).active = true ∧
        CString.ofArray (s.user i).username = username) ∧
      ∀ i < s.userCount, (s.user i).active = true →
        CString.ofArray (s.user i).username = username →
        CString.ofArray (s.user i).password = password := by
  simp only [AcceptsOnly, securityAuthenticateUser_eq_zero, securityAuthenticateUser_eq_neg_one]
  constructor
  · rintro ⟨⟨i, hi, hadm⟩, honly⟩
    obtain ⟨hactive, hname, -⟩ := admits_iff.mp hadm
    refine ⟨⟨i, hi, hactive, hname⟩, fun k hk hka hkn => ?_⟩
    by_contra hne
    exact honly _ hne ⟨k, hk, admits_iff.mpr ⟨hka, hkn, rfl⟩⟩
  · rintro ⟨⟨i, hi, hactive, hname⟩, hall⟩
    refine ⟨⟨i, hi, admits_iff.mpr ⟨hactive, hname, hall i hi hactive hname⟩⟩, ?_⟩
    rintro password' hne ⟨k, hk, hadm⟩
    obtain ⟨hka, hkn, hkp⟩ := admits_iff.mp hadm
    exact hne (hkp.symm.trans (hall k hk hka hkn))

/-! ## What becomes of an entry -/

/-- `e'` is the same user as `e`, maybe deleted meanwhile and with another password. -/
structure Later (e e' : UserEntry) : Prop where
  username : e'.username = e.username
  uid : e'.uid = e.uid
  gid : e'.gid = e.gid
  active : e'.active = true → e.active = true

theorem Later.refl (e : UserEntry) : Later e e := ⟨rfl, rfl, rfl, id⟩

theorem Later.trans {e e' e'' : UserEntry} (h : Later e e') (h' : Later e' e'') : Later e e'' where
  username := h'.username.trans h.username
  uid := h'.uid.trans h.uid
  gid := h'.gid.trans h.gid
  active := fun ha => h.active (h'.active ha)

theorem user_addUser (h : s.userCount < 16) (username : CString) (uid gid : Word) (j : Nat) :
    (addUser s h username uid gid).user j = if j = s.userCount then
      { username := (strncpy (s.user s.userCount).username username.bytes 31).setIfInBounds 31 0
        uid := uid, gid := gid
        password := (s.user s.userCount).password.setIfInBounds 0 0
        active := true }
      else s.user j :=
  slot_modifySlot s.userDb h _ j

/-- **An entry stays the same user's.** -/
theorem Effect.later {s s' : Security} {call : SecurityCall} (h : Effect s call s') {j : Nat}
    (hj : j < s.userCount) : Later (s.user j) (s'.user j) ∧ j < s'.userCount := by
  cases h with
  | nothing _ => exact ⟨Later.refl _, hj⟩
  | context _ uid gid hroot => exact ⟨Later.refl _, hj⟩
  | acl _ table count hle hroot => exact ⟨Later.refl _, hj⟩
  | created username uid gid hroom hroot hnew =>
    rw [user_addUser, if_neg (by omega)]
    exact ⟨Later.refl _, Nat.lt_succ_of_lt hj⟩
  | deleted uid i hroot hi =>
    obtain ⟨hlt, -, -⟩ := findSlot_eq_some.mp hi
    refine ⟨?_, hj⟩
    have huser := slot_modifySlot s.userDb (Nat.lt_of_lt_of_le hlt s.user_le)
      (fun e => { e with active := false }) j
    show Later (s.user j) (slot _ j)
    rw [huser]
    by_cases hji : j = i
    · subst hji
      rw [if_pos rfl]
      exact ⟨rfl, rfl, rfl, fun h => Bool.noConfusion h⟩
    · rw [if_neg hji]
      exact Later.refl _
  | password uid i pw hmay hi =>
    obtain ⟨hlt, -, -⟩ := findSlot_eq_some.mp hi
    refine ⟨?_, hj⟩
    rw [user_storePassword (Nat.lt_of_lt_of_le hlt s.user_le)]
    by_cases hji : j = i
    · subst hji
      rw [if_pos rfl]
      exact ⟨rfl, rfl, rfl, id⟩
    · rw [if_neg hji]
      exact Later.refl _

theorem securitySetUserPassword_of_find {uid : Word} {i : Nat} {pw : CString}
    (hmay : s.isRoot = true ∨ s.currentContext.uid = uid)
    (hi : findSlot s.userDb (UserEntry.activeWith uid) 0 s.userCount = some i) :
    securitySetUserPassword s uid (some pw) = (storePassword s i pw, 0) := by
  rw [securitySetUserPassword, if_pos (by simpa using hmay), hi]

/-- **Only a successful `security_set_user_password` for its user id changes an entry's
password.** -/
theorem step_password_eq {j : Nat} (hj : j < s.userCount) (call : SecurityCall)
    (h : ∀ pw, call = .setUserPassword (s.user j).uid pw → (s.step call).2 ≠ .int 0) :
    ((s.step call).1.user j).password = (s.user j).password := by
  have he := step_effect s call
  generalize hs' : (s.step call).1 = s' at he
  cases he with
  | nothing _ => rfl
  | context _ uid gid hroot => rfl
  | acl _ table count hle hroot => rfl
  | created username uid gid hroom hroot hnew => rw [user_addUser, if_neg (by omega)]
  | deleted uid i hroot hi =>
    obtain ⟨hlt, -, -⟩ := findSlot_eq_some.mp hi
    have huser := slot_modifySlot s.userDb (Nat.lt_of_lt_of_le hlt s.user_le)
      (fun e => { e with active := false }) j
    refine (congrArg UserEntry.password huser).trans ?_
    by_cases hji : j = i
    · subst hji
      rw [if_pos rfl]
      rfl
    · rw [if_neg hji]
      rfl
  | password uid i pw hmay hi =>
    obtain ⟨hlt, hwith, -⟩ := findSlot_eq_some.mp hi
    rw [user_storePassword (Nat.lt_of_lt_of_le hlt s.user_le)]
    by_cases hji : j = i
    · subst hji
      have huid : (s.user j).uid = uid := (activeWith_iff.mp hwith).1
      refine absurd ?_ (h (some pw) (by rw [huid]))
      show SecurityAnswer.int (securitySetUserPassword s uid (some pw)).2 = .int 0
      rw [securitySetUserPassword_of_find hmay hi]
    · rw [if_neg hji]

/-- The entry at the end of a run. -/
theorem run_later {j : Nat} (hj : j < s.userCount) (calls : List SecurityCall) :
    Later (s.user j) ((run Security.step s calls).user j) ∧
      j < (run Security.step s calls).userCount := by
  refine inv_run_of_forall Security.step
    (I := fun s' => Later (s.user j) (s'.user j) ∧ j < s'.userCount) ?_ calls
    ⟨Later.refl _, hj⟩
  rintro s' call ⟨hlater, hj'⟩
  obtain ⟨hnext, hlt⟩ := (step_effect s' call).later hj'
  exact ⟨hlater.trans hnext, hlt⟩

/-- The password at the end of a run in which none is set for the entry's user id. -/
theorem run_password_eq {j : Nat} (hj : j < s.userCount) {calls : List SecurityCall}
    (h : Along Security.step (fun s' call => ∀ pw, call = .setUserPassword (s.user j).uid pw →
      (s'.step call).2 ≠ .int 0) s calls) :
    ((run Security.step s calls).user j).password = (s.user j).password := by
  -- the entry keeps its user id, so the condition stays about the same entry
  have hinv := inv_run Security.step (s := s)
    (I := fun s' => j < s'.userCount ∧ (s'.user j).uid = (s.user j).uid ∧
      (s'.user j).password = (s.user j).password)
    (P := fun s' call => ∀ pw, call = .setUserPassword (s.user j).uid pw →
      (s'.step call).2 ≠ .int 0)
    (by
      rintro s' call ⟨hj', huid, hpw⟩ hcall
      obtain ⟨hlater, hlt⟩ := (step_effect s' call).later hj'
      refine ⟨hlt, hlater.uid.trans huid, ?_⟩
      rw [step_password_eq hj' call (by rw [huid]; exact hcall), hpw])
    ⟨hj, rfl, rfl⟩ h
  exact hinv.2.2

/-- Every name in the database has been cut to its field. -/
def ShortNames (s : Security) : Prop :=
  ∀ j < s.userCount, (CString.ofArray (s.user j).username).bytes.length ≤ 31

theorem Effect.shortNames {s s' : Security} {call : SecurityCall} (he : Effect s call s')
    (h : ShortNames s) : ShortNames s' := by
  intro j hj
  by_cases hold : j < s.userCount
  · rw [(he.later hold).1.username]
    exact h j hold
  · cases he with
    | created username uid gid hroom hroot hnew =>
      have hj' : j = s.userCount := Nat.le_antisymm (Nat.le_of_lt_succ hj) (Nat.le_of_not_lt hold)
      rw [user_addUser, if_pos hj', CString.ofArray_strncpy _ _ (by omega)]
      exact List.length_take_le 31 username.bytes
    | nothing _ => exact absurd hj hold
    | context _ uid gid hroot => exact absurd hj hold
    | acl _ table count hle hroot => exact absurd hj hold
    | deleted uid i hroot hi => exact absurd hj hold
    | password uid i pw hmay hi => exact absurd hj hold

theorem run_shortNames {s : Security} (h : ShortNames s) (calls : List SecurityCall) :
    ShortNames (run Security.step s calls) :=
  inv_run_of_forall Security.step (fun s call hs => (step_effect s call).shortNames hs) calls h

theorem securityInit_shortNames : ShortNames securityInit := by
  rw [securityInit_eq]
  exact run_shortNames (fun j hj => absurd hj (Nat.not_lt_zero j)) _

/-! ## Registration -/

/-- A user is created at some point of a run, the user id is given a password later, and then
other calls follow. -/
structure Registration where
  pre : List SecurityCall
  username : CString
  uid : Word
  gid : Word
  mid : List SecurityCall
  password : CString
  post : List SecurityCall

namespace Registration

/-- The state in which `security_create_user` is called. -/
def before (r : Registration) : Security := run Security.step securityInit r.pre

/-- The entry that the user gets. -/
def index (r : Registration) : Nat := r.before.userCount

/-- The state in which `security_set_user_password` is called. -/
def between (r : Registration) : Security :=
  run Security.step (securityCreateUser r.before (some r.username) r.uid r.gid).1 r.mid

/-- The state right after that. -/
def after (r : Registration) : Security :=
  (securitySetUserPassword r.between r.uid (some r.password)).1

/-- The state at the end of the run. -/
def final (r : Registration) : Security := run Security.step r.after r.post

/-- The calls say of themselves that they succeed, no later password is set for the user id, and
the user is not deleted. -/
structure Succeeds (r : Registration) : Prop where
  created : (securityCreateUser r.before (some r.username) r.uid r.gid).2 = 0
  set : (securitySetUserPassword r.between r.uid (some r.password)).2 = 0
  last : Along Security.step (fun s call => ∀ pw, call = .setUserPassword r.uid pw →
    (s.step call).2 ≠ .int 0) r.after r.post
  kept : (r.final.user r.index).active = true

/-- No active entry before the user's own has its user id when the password is set. -/
def First (r : Registration) : Prop :=
  ∀ i < r.index, (r.between.user i).activeWith r.uid = false

instance (r : Registration) : Decidable r.First := inferInstanceAs (Decidable (∀ i < r.index, _))

theorem exists_addUser {r : Registration} (h : r.Succeeds) :
    ∃ hroom, (securityCreateUser r.before (some r.username) r.uid r.gid).1
      = addUser r.before hroom r.username r.uid r.gid := by
  have h0 := h.created
  unfold securityCreateUser at h0 ⊢
  simp only at h0 ⊢
  split at h0
  · next hroom =>
    split at h0
    · next hroot =>
      split at h0
      · cases h0
      · next hnew => exact ⟨hroom, by rw [dif_pos hroom, if_pos hroot]⟩
    · cases h0
  · cases h0

/-- The user's entry when the password is set. -/
theorem between_user {r : Registration} (h : r.Succeeds) :
    r.index < r.between.userCount ∧ (r.between.user r.index).uid = r.uid ∧
      CString.ofArray (r.between.user r.index).username = r.username.truncate 31 := by
  obtain ⟨hroom, hadd⟩ := exists_addUser h
  have hnew := user_addUser hroom r.username r.uid r.gid r.index
  rw [if_pos (show r.index = r.before.userCount from rfl)] at hnew
  obtain ⟨hlater, hlt⟩ := run_later (s := addUser r.before hroom r.username r.uid r.gid)
    (j := r.index) (Nat.lt_succ_self _) r.mid
  rw [between, hadd]
  refine ⟨hlt, ?_, ?_⟩
  · rw [hlater.uid, hnew]
  · rw [hlater.username, hnew, CString.ofArray_strncpy _ _ (by omega)]

theorem exists_storePassword {r : Registration} (h : r.Succeeds) :
    ∃ i, findSlot r.between.userDb (UserEntry.activeWith r.uid) 0 r.between.userCount = some i ∧
      r.after = storePassword r.between i r.password := by
  have h0 := h.set
  unfold after
  unfold securitySetUserPassword at h0 ⊢
  simp only at h0 ⊢
  split at h0
  · next hmay =>
    split at h0
    · next i hi => exact ⟨i, hi, by rw [if_pos hmay]⟩
    · cases h0
  · cases h0

/-- The password of the user's entry after the call: the new one if no other active entry with
the user id comes first, else what it was. -/
theorem after_password {r : Registration} (h : r.Succeeds)
    (hactive : (r.between.user r.index).active = true) :
    CString.ofArray (r.after.user r.index).password
      = if r.First then r.password.truncate 31
        else CString.ofArray (r.between.user r.index).password := by
  obtain ⟨hlt, huid, -⟩ := between_user h
  obtain ⟨i, hi, hafter⟩ := exists_storePassword h
  obtain ⟨hilt, hwith, hfirst⟩ := findSlot_eq_some.mp hi
  have hself : (r.between.user r.index).activeWith r.uid = true :=
    activeWith_iff.mpr ⟨huid, hactive⟩
  rw [hafter, user_storePassword (Nat.lt_of_lt_of_le hilt r.between.user_le)]
  by_cases hr : r.First
  · have hri : r.index = i := by
      rcases Nat.lt_trichotomy r.index i with hlt' | heq | hgt
      · exact Bool.noConfusion (hself.symm.trans (hfirst r.index hlt'))
      · exact heq
      · exact Bool.noConfusion (hwith.symm.trans (hr i hgt))
    rw [if_pos hr, if_pos hri, CString.ofArray_strncpy _ _ (by omega)]
  · have hri : r.index ≠ i := fun heq => hr fun k hk => hfirst k (heq ▸ hk)
    rw [if_neg hr, if_neg hri]

/-- The user's entry at the end of the run. -/
theorem final_user {r : Registration} (h : r.Succeeds) :
    r.index < r.final.userCount ∧
      CString.ofArray (r.final.user r.index).username = r.username.truncate 31 ∧
      CString.ofArray (r.final.user r.index).password
        = if r.First then r.password.truncate 31
          else CString.ofArray (r.between.user r.index).password := by
  obtain ⟨hlt, huid, hname⟩ := between_user h
  -- the entry right after the password has been set
  obtain ⟨hset, hlt'⟩ := (step_effect r.between
    (.setUserPassword r.uid (some r.password))).later hlt
  obtain ⟨hlater, hlt''⟩ := run_later (s := r.after) hlt' r.post
  have hactive : (r.between.user r.index).active = true :=
    hset.active (hlater.active h.kept)
  have hlast := h.last
  rw [← huid, ← hset.uid] at hlast
  refine ⟨hlt'', ?_, ?_⟩
  · rw [final, hlater.username, ← hname]
    exact congrArg CString.ofArray hset.username
  · rw [final, run_password_eq (s := r.after) hlt' hlast, after_password h hactive]

theorem final_shortNames (r : Registration) : ShortNames r.final := by
  have hbefore : ShortNames r.before := run_shortNames securityInit_shortNames r.pre
  have hbetween : ShortNames r.between :=
    run_shortNames ((effect_createUser r.before _ r.uid r.gid).shortNames hbefore) r.mid
  exact run_shortNames ((effect_setUserPassword r.between r.uid _).shortNames hbetween) r.post

end Registration

/--
**The password set last.**

The run has created the user, later set a password for the user id and no other since, and not
deleted the user. Then that password and no other lets the user in exactly when

* the name is at most 31 bytes long,
* the user's entry is the first active one with the user id when the password is set, and the
  password is at most 31 bytes long, or it is not the first and has that very password anyway,
* every other active entry stored under the same name has that very password.
-/
theorem accepts_last_password_iff (r : Registration) (h : r.Succeeds) :
    AcceptsOnly r.final r.username r.password ↔
      r.username.bytes.length ≤ 31 ∧
      (if r.First then r.password.bytes.length ≤ 31
        else CString.ofArray (r.between.user r.index).password = r.password) ∧
      ∀ k < r.final.userCount, k ≠ r.index → (r.final.user k).active = true →
        CString.ofArray (r.final.user k).username = r.username →
        CString.ofArray (r.final.user k).password = r.password := by
  obtain ⟨hlt, hname, hpw⟩ := Registration.final_user h
  have hshort := Registration.final_shortNames r
  have hpw' : CString.ofArray (r.final.user r.index).password = r.password ↔
      if r.First then r.password.bytes.length ≤ 31
        else CString.ofArray (r.between.user r.index).password = r.password := by
    rw [hpw]
    by_cases hr : r.First
    · rw [if_pos hr, if_pos hr, CString.truncate_eq_self]
    · rw [if_neg hr, if_neg hr]
  rw [acceptsOnly_iff, ← hpw', ← CString.truncate_eq_self]
  constructor
  · rintro ⟨⟨i, hi, -, hin⟩, hall⟩
    have htrunc : r.username.truncate 31 = r.username := by
      rw [CString.truncate_eq_self, ← hin]
      exact hshort i hi
    exact ⟨htrunc, hall r.index hlt h.kept (hname.trans htrunc), fun k hk _ => hall k hk⟩
  · rintro ⟨htrunc, hown, hothers⟩
    refine ⟨⟨r.index, hlt, h.kept, hname.trans htrunc⟩, fun k hk => ?_⟩
    by_cases hki : k = r.index
    · subst hki
      exact fun _ _ => hown
    · exact hothers k hk hki

/-- `"bob"`. -/
def bobName : CString := ⟨[0x62, 0x6F, 0x62], by simp⟩

/-- The letter `a`, `n` times. -/
def repeatedA (n : Nat) : CString := ⟨List.replicate n 0x61, fun b hb => by
  rw [List.eq_of_mem_replicate hb]
  decide⟩

/-- Bob is created and given a password of `n` letters. -/
def bobWithPassword (n : Nat) : Registration where
  pre := []
  username := bobName
  uid := 1000
  gid := 1000
  mid := []
  password := repeatedA n
  post := []

theorem accepts_last_password_bob :
    (bobWithPassword 31).Succeeds ∧ AcceptsOnly (bobWithPassword 31).final bobName (repeatedA 31) :=
  have h : (bobWithPassword 31).Succeeds :=
    ⟨by decide +kernel, by decide +kernel, trivial, by decide +kernel⟩
  ⟨h, (accepts_last_password_iff (bobWithPassword 31) h).mpr (by decide +kernel)⟩

/-- With a password of 32 letters, which `security_set_user_password` says it has set, nobody is
let in. -/
theorem last_password_rejected :
    (bobWithPassword 32).Succeeds ∧
      ¬ AcceptsOnly (bobWithPassword 32).final bobName (repeatedA 32) := by
  refine ⟨⟨by decide +kernel, by decide +kernel, trivial, by decide +kernel⟩, fun h => ?_⟩
  exact absurd h.1 (by decide +kernel)

/-! ## The identity after a login -/

/-- If somebody is let in, the context is afterwards that of an active entry with this name and
password; if not, nothing has changed. -/
def LoginSound (s : Security) (username password : Option CString) : Prop :=
  ((securityAuthenticateUser s username password).2 = 0 →
    ∃ u ∈ username, ∃ p ∈ password, ∃ i < s.userCount,
      let s' := (securityAuthenticateUser s username password).1
      (s'.user i).active = true ∧ CString.ofArray (s'.user i).username = u ∧
        CString.ofArray (s'.user i).password = p ∧
        s'.currentContext.uid = (s'.user i).uid ∧ s'.currentContext.gid = (s'.user i).gid) ∧
  ((securityAuthenticateUser s username password).2 = -1 →
    (securityAuthenticateUser s username password).1 = s)

/-- The context is already that of an entry that lets this name and password in. -/
def AlreadyIn (s : Security) (username password : CString) : Prop :=
  ∃ i < s.userCount, (s.user i).admits username password = true ∧
    s.currentContext.uid = (s.user i).uid ∧ s.currentContext.gid = (s.user i).gid

instance (s : Security) (username password : CString) : Decidable (AlreadyIn s username password) :=
  inferInstanceAs (Decidable (∃ i < s.userCount, _))

theorem loginSound_of_null (s : Security) {username password : Option CString}
    (h : username = none ∨ password = none) : LoginSound s username password := by
  have heq : securityAuthenticateUser s username password = (s, -1) := by
    rcases h with rfl | rfl
    · rfl
    · cases username with
      | none => rfl
      | some u => rfl
  rw [LoginSound, heq]
  exact ⟨fun h0 => absurd h0 (by simp), fun _ => rfl⟩

theorem loginSound_of_not_recognized {u p : CString} (h : ¬ Recognized s u p) :
    LoginSound s (some u) (some p) := by
  rw [LoginSound, securityAuthenticateUser_of_not_recognized h]
  exact ⟨fun h0 => absurd h0 (by simp), fun _ => rfl⟩

theorem loginSound_of_root (hroot : s.isRoot = true) {u p : CString} (h : Recognized s u p) :
    LoginSound s (some u) (some p) := by
  obtain ⟨i, hi, hadm, heq⟩ := securityAuthenticateUser_of_recognized h
  obtain ⟨hactive, hname, hpw⟩ := admits_iff.mp hadm
  rw [securitySetContext, if_pos hroot] at heq
  rw [LoginSound, heq]
  refine ⟨fun _ => ⟨u, rfl, p, rfl, i, hi, ?_⟩, fun h0 => by cases h0⟩
  exact ⟨hactive, hname, hpw, rfl, rfl⟩

/-- Without root the context stays what it is. -/
theorem loginSound_iff_of_not_root (hroot : s.isRoot = false) {u p : CString}
    (h : Recognized s u p) : LoginSound s (some u) (some p) ↔ AlreadyIn s u p := by
  obtain ⟨i, -, -, heq⟩ := securityAuthenticateUser_of_recognized h
  rw [securitySetContext, if_neg (by simp [hroot])] at heq
  rw [LoginSound, heq]
  constructor
  · rintro ⟨hin, -⟩
    obtain ⟨u', hu', p', hp', k, hk, hactive, hname, hpw, huid, hgid⟩ := hin rfl
    cases hu'
    cases hp'
    exact ⟨k, hk, admits_iff.mpr ⟨hactive, hname, hpw⟩, huid, hgid⟩
  · rintro ⟨k, hk, hadm, huid, hgid⟩
    obtain ⟨hactive, hname, hpw⟩ := admits_iff.mp hadm
    exact ⟨fun _ => ⟨u, rfl, p, rfl, k, hk, hactive, hname, hpw, huid, hgid⟩, fun _ => rfl⟩

/--
**A login changes the identity.**

In every state after `security_init`, a call of `security_authenticate_user` keeps its promise
exactly when the caller is root, or no entry lets the name and password in, or the context is that
of such an entry before the call.
-/
theorem login_changes_identity_iff (calls : List SecurityCall)
    (username password : Option CString) :
    LoginSound (run Security.step securityInit calls) username password ↔
      ∀ u ∈ username, ∀ p ∈ password,
        (run Security.step securityInit calls).currentContext.uid = rootUid ∨
        ¬ Recognized (run Security.step securityInit calls) u p ∨
        AlreadyIn (run Security.step securityInit calls) u p := by
  generalize run Security.step securityInit calls = s
  cases username with
  | none => exact iff_of_true (loginSound_of_null s (Or.inl rfl)) fun u hu => by cases hu
  | some u =>
    cases password with
    | none => exact iff_of_true (loginSound_of_null s (Or.inr rfl)) fun _ _ p hp => by cases hp
    | some p =>
      simp only [Option.mem_some_iff, forall_eq']
      by_cases hadm : Recognized s u p
      · by_cases hroot : s.currentContext.uid = rootUid
        · exact iff_of_true (loginSound_of_root (isRoot_iff.mpr hroot) hadm) (Or.inl hroot)
        · rw [loginSound_iff_of_not_root (isRoot_eq_false.mpr hroot) hadm]
          simp [hroot, hadm]
      · exact iff_of_true (loginSound_of_not_recognized hadm) (Or.inr (Or.inl hadm))

/-- Root has created Bob and has become user 1000. -/
def asUser1000 : Security := run Security.step securityInit
  [.createUser (some bobName) 1001 1001, .setContext 1000 1000]

/-- As user 1000, logging in as Bob succeeds and leaves the context with user 1000. -/
theorem login_keeps_identity :
    (securityAuthenticateUser asUser1000 (some bobName) (some (repeatedA 0))).2 = 0 ∧
      (securityAuthenticateUser asUser1000 (some bobName) (some (repeatedA 0))).1.currentContext.uid
        = 1000 ∧
      ¬ LoginSound asUser1000 (some bobName) (some (repeatedA 0)) := by
  refine ⟨by decide +kernel, by decide +kernel, ?_⟩
  rw [loginSound_iff_of_not_root (by decide +kernel) (by decide +kernel)]
  decide +kernel

end MinimalistOS
