import MinimalistOS.Infra.Upsert
import MinimalistOS.Properties.Security

/-!
# The access control list as a map

* `Security.rows` — the list as a table of keys with values
* `securityGetPermission_eq`, `securitySetPermission_cases` — reading is a lookup, setting an
  `upsert`, but for names that are cut and for a full table
* `acl_map_iff` — over runs, which calls keep the list a map
* `access_order_iff` — when two orders of the same grants decide alike

A name is cut to 63 bytes when it is stored and compared in full. The test for a full table stands
before the search, so that the entries of a full table cannot be changed. And an access is decided
by the first entry that applies to the caller, so by the one that was set first.
-/

namespace MinimalistOS

open Infra

variable {s : Security}

/-! ## Rows -/

/-- What an entry is looked up by: a resource, a user and a group. -/
structure AclKey where
  resource : CString
  uid : Word
  gid : Word
  deriving DecidableEq

/-- The key that is stored. -/
def AclEntry.key (e : AclEntry) : AclKey := ⟨CString.ofArray e.resource, e.uid, e.gid⟩

/-- The entries in use. -/
def Security.rows (s : Security) : List (AclKey × Word) :=
  (List.range s.aclCount).map fun i => ((s.acl i).key, (s.acl i).permissions)

theorem hasKey_eq (e : AclEntry) (resource : CString) (uid gid : Word) :
    e.hasKey resource uid gid = decide (e.key = ⟨resource, uid, gid⟩) := by
  rw [Bool.eq_iff_iff, decide_eq_true_iff, AclEntry.key, AclKey.mk.injEq,
    AclEntry.hasKey, Bool.and_eq_true, Bool.and_eq_true, isFor_iff, beq_iff_eq, beq_iff_eq,
    and_assoc]

theorem length_rows (s : Security) : s.rows.length = s.aclCount := by
  rw [Security.rows, List.length_map, List.length_range]

theorem getElem?_rows {i : Nat} (hi : i < s.aclCount) :
    s.rows[i]? = some ((s.acl i).key, (s.acl i).permissions) := by
  rw [Security.rows, List.getElem?_map, List.getElem?_range hi]
  rfl

/-- **Reading is a lookup.** -/
theorem securityGetPermission_eq (s : Security) (resource : CString) (uid gid : Word) :
    securityGetPermission s (some resource) uid gid = s.rows.lookup ⟨resource, uid, gid⟩ := by
  rw [Security.rows, lookup_map, securityGetPermission, findSlot_eq_find?, List.range_eq_range']
  simp only [hasKey_eq]
  rfl

theorem mem_keys_iff {resource : CString} {uid gid : Word} :
    ⟨resource, uid, gid⟩ ∈ s.rows.map Prod.fst ↔
      securityGetPermission s (some resource) uid gid ≠ none := by
  rw [securityGetPermission_eq, Ne, lookup_eq_none, not_not]

/-- A change of one entry's permissions. -/
theorem rows_of_acl {s s' : Security} {i : Nat} (hi : i < s.aclCount) {perm : Word}
    (hcount : s'.aclCount = s.aclCount)
    (hacl : ∀ j, s'.acl j = if j = i then { s.acl i with permissions := perm } else s.acl j) :
    s'.rows = s.rows.set i ((s.acl i).key, perm) := by
  refine List.ext_getElem? fun j => ?_
  rw [List.getElem?_set, length_rows]
  by_cases hj : j < s.aclCount
  · rw [getElem?_rows (hcount ▸ hj), getElem?_rows hj, hacl]
    by_cases hij : i = j
    · rw [if_pos hij.symm, if_pos hij, if_pos hi]
      rfl
    · rw [if_neg (Ne.symm hij), if_neg hij]
  · have hle : s.aclCount ≤ j := Nat.not_lt.mp hj
    rw [List.getElem?_eq_none (by rw [length_rows, hcount]; exact hle), if_neg (by omega),
      List.getElem?_eq_none (by rw [length_rows]; exact hle)]

/-- A new entry, with its name cut. -/
theorem rows_addAcl (h : s.aclCount < 64) (resource : CString) (uid gid perm : Word) :
    (addAcl s h resource uid gid perm).rows
      = s.rows ++ [(⟨resource.truncate 63, uid, gid⟩, perm)] := by
  have hslot := slot_modifySlot s.aclTable h fun e =>
    ({ resource := (strncpy e.resource resource.bytes 63).setIfInBounds 63 0
       uid := uid, gid := gid, permissions := perm } : AclEntry)
  have hnew : (addAcl s h resource uid gid perm).acl s.aclCount
      = { resource := (strncpy (s.acl s.aclCount).resource resource.bytes 63).setIfInBounds 63 0
          uid := uid, gid := gid, permissions := perm } := (hslot s.aclCount).trans (if_pos rfl)
  rw [Security.rows, show (addAcl s h resource uid gid perm).aclCount = s.aclCount + 1 from rfl,
    List.range_succ, List.map_append, List.map_singleton, hnew, AclEntry.key,
    CString.ofArray_strncpy _ _ (by decide)]
  refine congrArg (· ++ _) (List.map_congr_left fun j hj => ?_)
  have hold : (addAcl s h resource uid gid perm).acl j = s.acl j :=
    (hslot j).trans (if_neg (Nat.ne_of_lt (List.mem_range.mp hj)))
  rw [hold]

/-- What `security_set_permission` can do for root. -/
theorem securitySetPermission_cases (hroot : s.isRoot = true) (resource : CString)
    (uid gid perm : Word) :
    (¬ s.aclCount < 64 ∧ securitySetPermission s (some resource) uid gid perm = (s, -1)) ∨
      (s.aclCount < 64 ∧ (securitySetPermission s (some resource) uid gid perm).2 = 0 ∧
        (securitySetPermission s (some resource) uid gid perm).1.rows
          = if ⟨resource, uid, gid⟩ ∈ s.rows.map Prod.fst then
              upsert ⟨resource, uid, gid⟩ perm s.rows
            else s.rows ++ [(⟨resource.truncate 63, uid, gid⟩, perm)]) := by
  have hkeys : ∀ i, i < s.aclCount → (s.rows[i]?).map Prod.fst = some (s.acl i).key :=
    fun i hi => by rw [getElem?_rows hi]; rfl
  by_cases hroom : s.aclCount < 64
  · right
    refine ⟨hroom, ?_⟩
    simp only [securitySetPermission, dif_pos hroom, if_pos hroot]
    cases hfind : findSlot s.aclTable (AclEntry.hasKey resource uid gid) 0 s.aclCount with
    | some i =>
      obtain ⟨hi, hkey, hfirst⟩ := findSlot_eq_some.mp hfind
      rw [hasKey_eq, decide_eq_true_iff] at hkey
      have hkey' : (s.acl i).key = ⟨resource, uid, gid⟩ := hkey
      have hmem : ⟨resource, uid, gid⟩ ∈ s.rows.map Prod.fst := by
        rw [mem_keys_iff, securityGetPermission, hfind]
        exact Option.some_ne_none _
      refine ⟨rfl, ?_⟩
      have hslot := slot_modifySlot s.aclTable (Nat.lt_of_lt_of_le hi s.acl_le)
        fun e => { e with permissions := perm }
      rw [if_pos hmem]
      refine Eq.trans (rows_of_acl hi rfl hslot) ?_
      rw [hkey']
      refine (upsert_of_first perm (by rw [hkeys i hi, hkey']) fun j hj hjk => ?_).symm
      have hj' := hfirst j hj
      rw [hasKey_eq, decide_eq_false_iff_not] at hj'
      rw [hkeys j (hj.trans hi)] at hjk
      exact hj' (Option.some.inj hjk)
    | none =>
      have hmem : ⟨resource, uid, gid⟩ ∉ s.rows.map Prod.fst := by
        rw [mem_keys_iff, securityGetPermission, hfind, not_not]
        rfl
      refine ⟨rfl, ?_⟩
      rw [if_neg hmem]
      exact rows_addAcl hroom resource uid gid perm
  · left
    refine ⟨hroom, ?_⟩
    simp only [securitySetPermission, dif_neg hroom]

/-! ## Histories -/

/-- What `security_init` sets. -/
def initRows : List (AclKey × Word) :=
  [(⟨devPath, rootUid, rootUid⟩, permRead ||| permWrite ||| permAdmin),
    (⟨procPath, rootUid, rootUid⟩, permRead ||| permAdmin),
    (⟨sysPath, rootUid, rootUid⟩, permRead ||| permAdmin)]

theorem rows_securityInit : securityInit.rows = initRows := by decide +kernel

/-- The `security_set_permission` that a call makes. -/
def SecurityCall.grant (s : Security) : SecurityCall → Option Grant
  | .setPermission resource uid gid perm => some ⟨resource, uid, gid, perm⟩
  | .sysChmod path mode => some ⟨path, sysGetuid s, sysGetgid s, mode⟩
  | .sysChown path uid gid => some ⟨path, uid, gid, permRead ||| permWrite ||| permExecute⟩
  | .setContext _ _ | .createUser _ _ _ | .deleteUser _ | .setUserPassword _ _
  | .authenticateUser _ _ | .sysSetuid _ | .sysSetgid _ => none

/-- The state, and what was set for each key by the calls that returned `0`. -/
structure AclHistory where
  state : Security
  bound : AclKey → Option Word

namespace AclHistory

def init : AclHistory := ⟨securityInit, fun k => initRows.lookup k⟩

/-- What is set after a `security_set_permission`. -/
def boundAfter (h : AclHistory) (resource : CString) (uid gid perm : Word) : AclKey → Option Word :=
  if (securitySetPermission h.state (some resource) uid gid perm).2 = 0 then
    Function.update h.bound ⟨resource, uid, gid⟩ (some perm)
  else h.bound

def step (h : AclHistory) (call : SecurityCall) : AclHistory × SecurityAnswer :=
  match call.grant h.state with
  | some ⟨some resource, uid, gid, perm⟩ =>
    (⟨(h.state.step call).1, h.boundAfter resource uid gid perm⟩, (h.state.step call).2)
  | _ => (⟨(h.state.step call).1, h.bound⟩, (h.state.step call).2)

end AclHistory

/-- What is promised of `security_set_permission(resource, uid, gid, perm)` in a state with a
history. -/
structure MapLaws (h : AclHistory) (resource : CString) (uid gid perm : Word) : Prop where
  accepts : h.bound ⟨resource, uid, gid⟩ ≠ none ∨ h.state.aclCount < 64 →
    (securitySetPermission h.state (some resource) uid gid perm).2 = 0
  stores : (securitySetPermission h.state (some resource) uid gid perm).2 = 0 →
    securityGetPermission (securitySetPermission h.state (some resource) uid gid perm).1
      (some resource) uid gid = some perm
  others : (securitySetPermission h.state (some resource) uid gid perm).2 = 0 →
    ∀ resource' uid' gid', (⟨resource', uid', gid'⟩ : AclKey) ≠ ⟨resource, uid, gid⟩ →
      securityGetPermission (securitySetPermission h.state (some resource) uid gid perm).1
        (some resource') uid' gid' = securityGetPermission h.state (some resource') uid' gid'
  refuses : (securitySetPermission h.state (some resource) uid gid perm).2 = -1 →
    (securitySetPermission h.state (some resource) uid gid perm).1 = h.state
  distinct : ∀ i < (securitySetPermission h.state (some resource) uid gid perm).1.aclCount,
    ∀ j < (securitySetPermission h.state (some resource) uid gid perm).1.aclCount,
      ((securitySetPermission h.state (some resource) uid gid perm).1.acl i).key
        = ((securitySetPermission h.state (some resource) uid gid perm).1.acl j).key → i = j

/-- The name fits if there is room for an entry, and the table has no entry for the key if there is
none. -/
def FitsTable (s : Security) (resource : CString) (uid gid : Word) : Prop :=
  (s.aclCount < 64 → resource.bytes.length ≤ 63) ∧
    (¬ s.aclCount < 64 → securityGetPermission s (some resource) uid gid = none)

/-- What holds of the history as long as every call fits. -/
structure AclHistory.Sound (h : AclHistory) : Prop where
  bound : ∀ k, h.bound k = h.state.rows.lookup k
  distinct : (h.state.rows.map Prod.fst).Nodup
  short : ∀ k ∈ h.state.rows.map Prod.fst, k.resource.bytes.length ≤ 63

theorem distinct_iff (s : Security) : (s.rows.map Prod.fst).Nodup ↔
    ∀ i < s.aclCount, ∀ j < s.aclCount, (s.acl i).key = (s.acl j).key → i = j := by
  rw [Security.rows, List.map_map, List.nodup_map_iff_inj_on List.nodup_range]
  simp only [List.mem_range, Function.comp_apply]

/-- A call that fits updates the table, or there is no room and nothing happens. -/
theorem securitySetPermission_of_fits (hroot : s.isRoot = true) {resource : CString}
    {uid gid : Word} (hfits : FitsTable s resource uid gid) (perm : Word) :
    ((securitySetPermission s (some resource) uid gid perm).2 = 0 ∧
        (securitySetPermission s (some resource) uid gid perm).1.rows
          = upsert ⟨resource, uid, gid⟩ perm s.rows) ∨
      (¬ s.aclCount < 64 ∧ securitySetPermission s (some resource) uid gid perm = (s, -1)) := by
  rcases securitySetPermission_cases hroot resource uid gid perm with hfull | ⟨hroom, hret, hrows⟩
  · exact Or.inr hfull
  · refine Or.inl ⟨hret, hrows.trans ?_⟩
    split
    · rfl
    · next hmem =>
      rw [CString.truncate_eq_self.mpr (hfits.1 hroom), upsert_of_not_mem hmem]

/-- Only a table with room for an entry accepts a call. -/
theorem room_of_set (hroot : s.isRoot = true) {resource : CString} {uid gid perm : Word}
    (hret : (securitySetPermission s (some resource) uid gid perm).2 = 0) : s.aclCount < 64 := by
  rcases securitySetPermission_cases hroot resource uid gid perm with ⟨-, heq⟩ | ⟨hroom, -⟩
  · rw [heq] at hret
    cases hret
  · exact hroom

/-- A name that is found again as it was given is one of those that are stored, and these are
short. -/
theorem length_le_of_stored (hroot : s.isRoot = true)
    (hshort : ∀ k ∈ s.rows.map Prod.fst, k.resource.bytes.length ≤ 63) {resource : CString}
    {uid gid perm : Word} (hret : (securitySetPermission s (some resource) uid gid perm).2 = 0)
    (hget : securityGetPermission (securitySetPermission s (some resource) uid gid perm).1
      (some resource) uid gid = some perm) : resource.bytes.length ≤ 63 := by
  have hmem : (⟨resource, uid, gid⟩ : AclKey) ∈
      (securitySetPermission s (some resource) uid gid perm).1.rows.map Prod.fst := by
    rw [mem_keys_iff, hget]
    exact Option.some_ne_none perm
  rcases securitySetPermission_cases hroot resource uid gid perm with ⟨hfull, -⟩ | ⟨-, -, hrows⟩
  · exact absurd (room_of_set hroot hret) hfull
  · rw [hrows] at hmem
    split at hmem
    · next hold => exact hshort _ hold
    · next hold =>
      rw [List.map_append, List.mem_append] at hmem
      have hkey := List.mem_singleton.mp (hmem.resolve_left hold)
      have hcut : resource = resource.truncate 63 := congrArg AclKey.resource hkey
      exact CString.truncate_eq_self.mp hcut.symm

/-- **The laws hold of a call that fits.** -/
theorem AclHistory.Sound.mapLaws {h : AclHistory} (hs : h.Sound) (hroot : h.state.isRoot = true)
    {resource : CString} {uid gid : Word} (hfits : FitsTable h.state resource uid gid)
    (perm : Word) : MapLaws h resource uid gid perm := by
  rcases securitySetPermission_of_fits hroot hfits perm with ⟨hret, hrows⟩ | ⟨hfull, heq⟩
  · refine ⟨fun _ => hret, fun _ => ?_, fun _ r u g hne => ?_, fun hneg => ?_, ?_⟩
    · rw [securityGetPermission_eq, hrows, lookup_upsert, if_pos rfl]
    · rw [securityGetPermission_eq, hrows, lookup_upsert, if_neg hne, securityGetPermission_eq]
    · rw [hret] at hneg
      cases hneg
    · rw [← distinct_iff, hrows]
      exact nodup_keys_upsert hs.distinct _ perm
  · have hne : (securitySetPermission h.state (some resource) uid gid perm).2 ≠ 0 :=
      fun hret => hfull (room_of_set hroot hret)
    refine ⟨fun hbound => ?_, fun hret => absurd hret hne, fun hret => absurd hret hne,
      fun _ => by rw [heq], ?_⟩
    · have hnone := hfits.2 hfull
      rw [securityGetPermission_eq, ← hs.bound] at hnone
      exact absurd hnone (hbound.resolve_right hfull)
    · rw [heq]
      exact (distinct_iff h.state).mp hs.distinct

/-- **The laws hold of the calls that fit, and of no other.** -/
theorem AclHistory.Sound.mapLaws_iff {h : AclHistory} (hs : h.Sound)
    (hroot : h.state.isRoot = true) (resource : CString) (uid gid perm : Word) :
    MapLaws h resource uid gid perm ↔ FitsTable h.state resource uid gid := by
  refine ⟨fun hlaws => ⟨fun hroom => ?_, fun hfull => ?_⟩, fun hfits => hs.mapLaws hroot hfits perm⟩
  · have hret := hlaws.accepts (Or.inr hroom)
    exact length_le_of_stored hroot hs.short hret (hlaws.stores hret)
  · by_contra hsome
    have hret := hlaws.accepts
      (Or.inl (by rw [hs.bound, ← securityGetPermission_eq]; exact hsome))
    exact hfull (room_of_set hroot hret)

/-! ## Runs -/

theorem step_of_grant {call : SecurityCall} {g : Grant} (hg : call.grant s = some g) :
    (s.step call).1 = (securitySetPermission s g.resource g.uid g.gid g.perm).1 := by
  cases call with
  | setPermission resource uid gid perm =>
    obtain rfl := Option.some.inj hg
    rfl
  | sysChmod path mode =>
    obtain rfl := Option.some.inj hg
    rfl
  | sysChown path uid gid =>
    obtain rfl := Option.some.inj hg
    rfl
  | setContext uid gid => cases hg
  | createUser username uid gid => cases hg
  | deleteUser uid => cases hg
  | setUserPassword uid password => cases hg
  | authenticateUser username password => cases hg
  | sysSetuid uid => cases hg
  | sysSetgid gid => cases hg

theorem rows_setContext (s : Security) (uid gid : Word) :
    (securitySetContext s uid gid).1.rows = s.rows := by
  unfold securitySetContext
  split
  · rfl
  · rfl

/-- The other calls leave the list alone. -/
theorem rows_step {call : SecurityCall} (hg : call.grant s = none) :
    (s.step call).1.rows = s.rows := by
  cases call with
  | setPermission resource uid gid perm => cases hg
  | sysChmod path mode => cases hg
  | sysChown path uid gid => cases hg
  | setContext uid gid => exact rows_setContext s uid gid
  | sysSetuid uid => exact rows_setContext s uid _
  | sysSetgid gid => exact rows_setContext s _ gid
  | createUser username uid gid =>
    show (securityCreateUser s username uid gid).1.rows = s.rows
    unfold securityCreateUser
    repeat' split
    all_goals rfl
  | deleteUser uid =>
    show (securityDeleteUser s uid).1.rows = s.rows
    unfold securityDeleteUser
    repeat' split
    all_goals rfl
  | setUserPassword uid password =>
    show (securitySetUserPassword s uid password).1.rows = s.rows
    unfold securitySetUserPassword
    repeat' split
    all_goals rfl
  | authenticateUser username password =>
    show (securityAuthenticateUser s username password).1.rows = s.rows
    unfold securityAuthenticateUser
    split
    · split
      · exact rows_setContext s _ _
      · rfl
    · rfl

theorem securitySetPermission_not_root (hroot : s.isRoot = false) (resource : Option CString)
    (uid gid perm : Word) : securitySetPermission s resource uid gid perm = (s, -1) := by
  cases resource with
  | none => rfl
  | some resource =>
    simp only [securitySetPermission, hroot, Bool.false_eq_true, if_false, dite_eq_ite, ite_self]

namespace AclHistory

/-- A call keeps the list a map. -/
def KeepsMap (h : AclHistory) (call : SecurityCall) : Prop :=
  h.state.isRoot = true → ∀ resource uid gid perm,
    call.grant h.state = some ⟨some resource, uid, gid, perm⟩ → MapLaws h resource uid gid perm

/-- A call fits, if it is made by root and sets a permission. -/
def Fits (h : AclHistory) (call : SecurityCall) : Prop :=
  h.state.isRoot = true → ∀ resource uid gid perm,
    call.grant h.state = some ⟨some resource, uid, gid, perm⟩ →
      FitsTable h.state resource uid gid

theorem sound_of_rows {s : Security} {rows : List (AclKey × Word)} (h : s.rows = rows)
    (hdistinct : (rows.map Prod.fst).Nodup)
    (hshort : ∀ k ∈ rows.map Prod.fst, k.resource.bytes.length ≤ 63) :
    Sound ⟨s, fun k => rows.lookup k⟩ := by
  subst h
  exact ⟨fun _ => rfl, hdistinct, hshort⟩

theorem sound_init : init.Sound := sound_of_rows rows_securityInit (by decide) (by decide)

theorem boundAfter_of_refused {h : AclHistory} {resource : CString} {uid gid perm : Word}
    {s : Security} (heq : securitySetPermission h.state (some resource) uid gid perm = (s, -1)) :
    h.boundAfter resource uid gid perm = h.bound := by
  have hne : (securitySetPermission h.state (some resource) uid gid perm).2 ≠ 0 := by
    rw [heq]
    exact fun hret => by cases hret
  exact if_neg hne

/-- A state with the same table, and the same history. -/
theorem Sound.of_rows {h h' : AclHistory} (hs : h.Sound) (hrows : h'.state.rows = h.state.rows)
    (hbound : h'.bound = h.bound) : h'.Sound := by
  refine ⟨fun k => ?_, ?_, ?_⟩
  · rw [hbound, hs.bound, hrows]
  · rw [hrows]
    exact hs.distinct
  · rw [hrows]
    exact hs.short

/-- **One call that fits** leaves the table what its history says. -/
theorem Sound.step {h : AclHistory} (hs : h.Sound) {call : SecurityCall} (hfits : h.Fits call) :
    (h.step call).1.Sound := by
  unfold AclHistory.step
  split
  · next resource uid gid perm hg =>
    have hstate := step_of_grant hg
    dsimp only at hstate
    cases hroot : h.state.isRoot with
    | false =>
      have heq := securitySetPermission_not_root hroot (some resource) uid gid perm
      rw [heq] at hstate
      exact hs.of_rows (congrArg Security.rows hstate) (boundAfter_of_refused heq)
    | true =>
      have hfit := hfits hroot resource uid gid perm hg
      rcases securitySetPermission_of_fits hroot hfit perm with ⟨hret, hrows⟩ | ⟨-, heq⟩
      · have hroom : h.state.aclCount < 64 := room_of_set hroot hret
        refine ⟨fun k => ?_, ?_, fun k hk => ?_⟩
        · show h.boundAfter resource uid gid perm k = (h.state.step call).1.rows.lookup k
          rw [hstate, hrows, lookup_upsert, boundAfter, if_pos hret, Function.update_apply,
            hs.bound]
        · show ((h.state.step call).1.rows.map Prod.fst).Nodup
          rw [hstate, hrows]
          exact nodup_keys_upsert hs.distinct _ perm
        · dsimp only at hk
          rw [hstate, hrows, keys_upsert] at hk
          split at hk
          · exact hs.short k hk
          · rcases List.mem_append.mp hk with hk | hk
            · exact hs.short k hk
            · rw [List.mem_singleton.mp hk]
              exact hfit.1 hroom
      · rw [heq] at hstate
        exact hs.of_rows (congrArg Security.rows hstate) (boundAfter_of_refused heq)
  · next hnone =>
    refine hs.of_rows ?_ rfl
    cases hg : call.grant h.state with
    | none => exact rows_step hg
    | some g =>
      obtain ⟨resource, uid, gid, perm⟩ := g
      cases resource with
      | none => exact congrArg Security.rows (step_of_grant hg)
      | some resource => exact absurd hg (hnone resource uid gid perm)

end AclHistory

/-! ## Sequences of grants -/

/-- The row that a grant sets. -/
def Grant.row (g : Grant) : Option (AclKey × Word) :=
  g.resource.map fun resource => (⟨resource, g.uid, g.gid⟩, g.perm)

/-- The name is not cut when it is stored. -/
def Grant.Short (g : Grant) : Prop := ∀ resource ∈ g.resource, resource.bytes.length ≤ 63

/-- Every grant of the sequence is successful. -/
def AllGranted (s : Security) (grants : List Grant) : Prop :=
  Along Security.step (fun s call => (s.step call).2 = .int 0) s (grants.map Grant.call)

theorem grant_cases {g : Grant} (hok : (s.step g.call).2 = .int 0) :
    ∃ resource, g.resource = some resource ∧ s.isRoot = true ∧ s.aclCount < 64 := by
  obtain ⟨resource, uid, gid, perm⟩ := g
  have hret : (securitySetPermission s resource uid gid perm).2 = 0 := by
    have hint : SecurityAnswer.int (securitySetPermission s resource uid gid perm).2 = .int 0 := hok
    exact SecurityAnswer.int.inj hint
  cases resource with
  | none => cases hret
  | some resource =>
    refine ⟨resource, rfl, ?_⟩
    cases hroot : s.isRoot with
    | false =>
      rw [securitySetPermission_not_root hroot] at hret
      cases hret
    | true =>
      rcases securitySetPermission_cases hroot resource uid gid perm with ⟨-, heq⟩ | ⟨hroom, -⟩
      · rw [heq] at hret
        cases hret
      · exact ⟨rfl, hroom⟩

/-- **Successful grants are updates one after another.** -/
theorem rows_run_grants {grants : List Grant} (hok : AllGranted s grants)
    (hshort : ∀ g ∈ grants, g.Short) :
    (run Security.step s (grants.map Grant.call)).rows
      = upsertAll s.rows (grants.filterMap Grant.row) := by
  induction grants generalizing s with
  | nil => rfl
  | cons g grants ih =>
    obtain ⟨hg, hok⟩ := hok
    obtain ⟨hgshort, hshort⟩ := List.forall_mem_cons.mp hshort
    obtain ⟨resource, hresource, hroot, hroom⟩ := grant_cases hg
    have hfits : FitsTable s resource g.uid g.gid :=
      ⟨fun _ => hgshort resource hresource, fun hfull => absurd hroom hfull⟩
    have hrow : g.row = some (⟨resource, g.uid, g.gid⟩, g.perm) := by
      rw [Grant.row, hresource]
      rfl
    have hstate : (s.step g.call).1 = (securitySetPermission s g.resource g.uid g.gid g.perm).1 :=
      step_of_grant rfl
    have hrows : (s.step g.call).1.rows = upsert ⟨resource, g.uid, g.gid⟩ g.perm s.rows := by
      rw [hstate, hresource]
      rcases securitySetPermission_of_fits hroot hfits g.perm with ⟨-, hrows⟩ | ⟨hfull, -⟩
      · exact hrows
      · exact absurd hroom hfull
    rw [List.map_cons, run_cons, ih hok hshort, hrows, List.filterMap_cons, hrow]
    rfl

/-! ## The list as a map -/

/--
**The list is a map as long as names fit and a full table is left alone.**

Over every sequence of calls after `security_init`, by root and by others: every
`security_set_permission` that root makes keeps the list a map, if and only if each of them is given
a name of at most 63 bytes while the table has room, and a key that is not in the table when it is
full.
-/
theorem acl_map_iff (calls : List SecurityCall) :
    Along AclHistory.step AclHistory.KeepsMap AclHistory.init calls ↔
      Along AclHistory.step AclHistory.Fits AclHistory.init calls := by
  refine along_iff_along AclHistory.step (I := AclHistory.Sound) (fun h call hs => ?_)
    (fun h call hs hfits => hs.step hfits) AclHistory.sound_init calls
  constructor
  · exact fun hkeeps hroot resource uid gid perm hg =>
      (hs.mapLaws_iff hroot resource uid gid perm).mp (hkeeps hroot resource uid gid perm hg)
  · exact fun hfits hroot resource uid gid perm hg =>
      (hs.mapLaws_iff hroot resource uid gid perm).mpr (hfits hroot resource uid gid perm hg)

theorem currentContext_setPermission (s : Security) (resource : Option CString)
    (uid gid perm : Word) :
    (securitySetPermission s resource uid gid perm).1.currentContext = s.currentContext := by
  unfold securitySetPermission
  repeat' split
  all_goals rfl

/-- As long as there is room for all of them, root's grants are successful. -/
theorem allGranted_of_room {grants : List Grant} (hroot : s.isRoot = true)
    (hnull : ∀ g ∈ grants, g.resource ≠ none) (hroom : s.aclCount + grants.length ≤ 64) :
    AllGranted s grants := by
  induction grants generalizing s with
  | nil => trivial
  | cons g grants ih =>
    obtain ⟨hg, hnull⟩ := List.forall_mem_cons.mp hnull
    obtain ⟨resource, hresource⟩ := Option.ne_none_iff_exists'.mp hg
    rw [List.length_cons] at hroom
    have hstate : (s.step g.call).1 = (securitySetPermission s g.resource g.uid g.gid g.perm).1 :=
      step_of_grant rfl
    have hanswer : (s.step g.call).2
        = .int (securitySetPermission s g.resource g.uid g.gid g.perm).2 := rfl
    rw [hresource] at hstate hanswer
    rcases securitySetPermission_cases hroot resource g.uid g.gid g.perm with
      ⟨hfull, -⟩ | ⟨-, hret, hrows⟩
    · exact absurd (by omega) hfull
    · refine ⟨hanswer.trans (congrArg SecurityAnswer.int hret), ih ?_ hnull ?_⟩
      · rw [hstate, isRoot_iff, currentContext_setPermission, ← isRoot_iff]
        exact hroot
      · have hlength : (s.step g.call).1.aclCount ≤ s.aclCount + 1 := by
          rw [← length_rows, ← length_rows, hstate, hrows]
          split
          · exact length_upsert_le _ _ _
          · rw [List.length_append]
            exact Nat.le_refl _
        omega

theorem AclHistory.state_init : AclHistory.init.state = securityInit := by
  rw [AclHistory.init]

theorem isRoot_run_grants (s : Security) (grants : List Grant) :
    (run Security.step s (grants.map Grant.call)).isRoot = s.isRoot := by
  induction grants generalizing s with
  | nil => rfl
  | cons g grants ih =>
    have hcontext := currentContext_setPermission s g.resource g.uid g.gid g.perm
    rw [List.map_cons, run_cons, ih]
    exact congrArg (fun ctx : SecurityContext => ctx.uid == rootUid) hcontext

theorem state_run (h : AclHistory) (calls : List SecurityCall) :
    (run AclHistory.step h calls).state = run Security.step h.state calls := by
  induction calls generalizing h with
  | nil => rfl
  | cons call calls ih =>
    have hstate : (h.step call).1.state = (h.state.step call).1 := by
      unfold AclHistory.step
      split
      · rfl
      · rfl
    rw [run_cons, ih, hstate, run_cons]

/-- What has been set stays set. -/
theorem bound_run {h : AclHistory} {k : AclKey} (hk : h.bound k ≠ none)
    (calls : List SecurityCall) : (run AclHistory.step h calls).bound k ≠ none := by
  refine inv_run_of_forall AclHistory.step (I := fun h => h.bound k ≠ none) ?_ calls hk
  intro h call hk
  unfold AclHistory.step
  split
  · next resource uid gid perm _ =>
    show h.boundAfter resource uid gid perm k ≠ none
    unfold AclHistory.boundAfter
    split
    · rw [Function.update_apply]
      split
      · exact Option.some_ne_none perm
      · exact hk
    · exact hk
  · exact hk

/-- In a full table, what has been set cannot be set again. -/
theorem not_keepsMap_of_full {h : AclHistory} (hroot : h.state.isRoot = true)
    (hfull : h.state.aclCount = 64) {resource : CString} {uid gid : Word}
    (hbound : h.bound ⟨resource, uid, gid⟩ ≠ none) (perm : Word) :
    ¬ h.KeepsMap (.setPermission (some resource) uid gid perm) := by
  intro hkeeps
  have hret := (hkeeps hroot resource uid gid perm rfl).accepts (Or.inl hbound)
  rcases securitySetPermission_cases hroot resource uid gid perm with ⟨-, heq⟩ | ⟨hroom, -⟩
  · rw [heq] at hret
    cases hret
  · omega

/-- Entries for `/dev`, of as many users as there is room for. -/
def fillGrants : List Grant :=
  (List.range 61).map fun i => ⟨some devPath, BitVec.ofNat 32 (i + 1), rootUid, permRead⟩

theorem mem_fillGrants {g : Grant} (hg : g ∈ fillGrants) : g.resource = some devPath := by
  obtain ⟨i, -, rfl⟩ := List.mem_map.mp hg
  rfl

theorem aclCount_fillGrants :
    (run Security.step securityInit (fillGrants.map Grant.call)).aclCount = 64 := by
  have hok : AllGranted securityInit fillGrants := by
    refine allGranted_of_room isRoot_securityInit (fun g hg => ?_) ?_
    · rw [mem_fillGrants hg]
      exact Option.some_ne_none devPath
    · rw [← length_rows, rows_securityInit]
      decide
  have hshort : ∀ g ∈ fillGrants, g.Short := by
    intro g hg resource hresource
    rw [mem_fillGrants hg] at hresource
    obtain rfl := Option.some.inj hresource
    decide
  rw [← length_rows, rows_run_grants hok hshort, rows_securityInit]
  decide +kernel

/-- With the table full, root cannot change an entry that `security_init` has set. And a name of 64
bytes is stored, but not found again. -/
theorem acl_not_map :
    ¬ Along AclHistory.step AclHistory.KeepsMap AclHistory.init
        (fillGrants.map Grant.call ++ [.setPermission (some devPath) rootUid rootUid permRead]) ∧
      ¬ Along AclHistory.step AclHistory.KeepsMap AclHistory.init
        [.setPermission (some ⟨List.replicate 64 0x61, by simp⟩) 1 1 permRead] := by
  constructor
  · rw [along_append]
    rintro ⟨-, hkeeps, -⟩
    have hstate := state_run AclHistory.init (fillGrants.map Grant.call)
    rw [AclHistory.state_init] at hstate
    refine not_keepsMap_of_full ?_ ?_ ?_ permRead hkeeps
    · rw [hstate, isRoot_run_grants]
      exact isRoot_securityInit
    · rw [hstate]
      exact aclCount_fillGrants
    · exact bound_run (by decide) _
  · rintro ⟨hkeeps, -⟩
    have hroot : AclHistory.init.state.isRoot = true := by
      rw [AclHistory.state_init]
      exact isRoot_securityInit
    have hlaws := hkeeps hroot _ _ _ _ rfl
    have hstores := hlaws.stores (by decide +kernel)
    revert hstores
    decide +kernel

/-! ## Which entry decides -/

/-- A key is for the resource, and the caller's, the caller's group's or root's. -/
def AclKey.applies (ctx : SecurityContext) (resource : CString) (k : AclKey) : Bool :=
  decide (k.resource = resource ∧ (k.uid = ctx.uid ∨ k.gid = ctx.gid ∨ k.uid = rootUid))

theorem decides_eq (e : AclEntry) (filename : CString) (ctx : SecurityContext) :
    e.decides filename ctx = e.key.applies ctx filename := by
  rw [Bool.eq_iff_iff, decides_iff, AclKey.applies, decide_eq_true_iff]
  rfl

/-- What decides: the permissions bound to a key, or the caller's own. -/
def Security.permissionsOf (s : Security) (k : Option AclKey) : Word :=
  (k.bind fun k => securityGetPermission s (some k.resource) k.uid k.gid).getD
    s.currentContext.permissions

theorem grant_eq_ite (permissions required : Word) :
    (if permissions &&& required == required then (0 : Int) else -1)
      = if Permits permissions required then 0 else -1 := by
  by_cases h : Permits permissions required
  · rw [if_pos h, grant_eq_zero]
    exact h
  · rw [if_neg h, if_neg (mt beq_iff_eq.mp h)]

/-- **An access is decided by the first key that applies.** -/
theorem securityCheckFileAccess_eq (s : Security) (filename : CString) (required : Word) :
    securityCheckFileAccess s (some filename) required
      = if Permits (s.permissionsOf
          ((s.rows.map Prod.fst).find? (AclKey.applies s.currentContext filename))) required
        then 0 else -1 := by
  have hget : (fun k : AclKey => securityGetPermission s (some k.resource) k.uid k.gid)
      = fun k => s.rows.lookup k := by
    funext k
    exact securityGetPermission_eq s k.resource k.uid k.gid
  rw [Security.permissionsOf, hget, ← find?_row, Security.rows, List.find?_map,
    securityCheckFileAccess, findSlot_eq_find?, ← List.range_eq_range']
  simp only [decides_eq]
  have hfun : ((fun row : AclKey × Word => AclKey.applies s.currentContext filename row.1) ∘
      fun i => ((s.acl i).key, (s.acl i).permissions))
      = fun i => (slot s.aclTable i).key.applies s.currentContext filename := rfl
  rw [hfun]
  cases (List.range s.aclCount).find?
      (fun i => (slot s.aclTable i).key.applies s.currentContext filename) with
  | some i => exact grant_eq_ite (s.acl i).permissions required
  | none => exact grant_eq_ite s.currentContext.permissions required

/-- The same bits are granted only by the same permissions. -/
theorem permits_forall_iff {p q : Word} :
    (∀ required, Permits p required ↔ Permits q required) ↔ p = q := by
  constructor
  · intro h
    have hp : q &&& p = p := (h p).mp (BitVec.and_self)
    have hq : p &&& q = q := (h q).mpr (BitVec.and_self)
    rw [← hp, BitVec.and_comm, hq]
  · rintro rfl required
    exact Iff.rfl

/-- The first key, in the order in which keys were set after `security_init`, that applies to a
caller. -/
def firstKey (grants : List Grant) (ctx : SecurityContext) (resource : CString) : Option AclKey :=
  (initRows.map Prod.fst ++ (grants.filterMap Grant.row).map Prod.fst).find?
    (AclKey.applies ctx resource)

theorem rows_grantedBy {grants : List Grant} (hok : AllGranted securityInit grants)
    (hshort : ∀ g ∈ grants, g.Short) (ctx : SecurityContext) :
    (grantedBy grants ctx).rows = upsertAll initRows (grants.filterMap Grant.row) := by
  rw [← rows_securityInit]
  exact rows_run_grants hok hshort

/-- The verdict after a sequence of grants. -/
theorem check_grantedBy {grants : List Grant} (hok : AllGranted securityInit grants)
    (hshort : ∀ g ∈ grants, g.Short) (ctx : SecurityContext) (resource : CString)
    (required : Word) :
    securityCheckFileAccess (grantedBy grants ctx) (some resource) required
      = if Permits ((grantedBy grants ctx).permissionsOf (firstKey grants ctx resource)) required
        then 0 else -1 := by
  rw [securityCheckFileAccess_eq, rows_grantedBy hok hshort, find?_keys_upsertAll]
  rfl

/--
**Which binding decides is a matter of the order of the grants.**

For two sequences of successful `security_set_permission` calls after `security_init`, with names
that fit their field, that end in the same bindings, and for every context and resource: the two
states give the same verdict for every required mask if the key that was set first among those that
apply to the caller is the same one, and in general if and only if the two keys that were set first
are bound to the same permissions.
-/
theorem access_order_iff {grants grants' : List Grant} (hok : AllGranted securityInit grants)
    (hok' : AllGranted securityInit grants') (hshort : ∀ g ∈ grants, g.Short)
    (hshort' : ∀ g ∈ grants', g.Short) (ctx : SecurityContext)
    (hsame : ∀ resource uid gid,
      securityGetPermission (grantedBy grants ctx) (some resource) uid gid
        = securityGetPermission (grantedBy grants' ctx) (some resource) uid gid)
    (resource : CString) :
    (firstKey grants ctx resource = firstKey grants' ctx resource → ∀ required,
      securityCheckFileAccess (grantedBy grants ctx) (some resource) required
        = securityCheckFileAccess (grantedBy grants' ctx) (some resource) required) ∧
    ((∀ required, securityCheckFileAccess (grantedBy grants ctx) (some resource) required
        = securityCheckFileAccess (grantedBy grants' ctx) (some resource) required) ↔
      (grantedBy grants ctx).permissionsOf (firstKey grants ctx resource)
        = (grantedBy grants' ctx).permissionsOf (firstKey grants' ctx resource)) := by
  have hiff : (∀ required, securityCheckFileAccess (grantedBy grants ctx) (some resource) required
        = securityCheckFileAccess (grantedBy grants' ctx) (some resource) required) ↔
      (grantedBy grants ctx).permissionsOf (firstKey grants ctx resource)
        = (grantedBy grants' ctx).permissionsOf (firstKey grants' ctx resource) := by
    rw [← permits_forall_iff]
    refine forall_congr' fun required => ?_
    rw [check_grantedBy hok hshort, check_grantedBy hok' hshort']
    by_cases h : Permits ((grantedBy grants ctx).permissionsOf (firstKey grants ctx resource))
        required
    · by_cases h' : Permits
          ((grantedBy grants' ctx).permissionsOf (firstKey grants' ctx resource)) required
      · simp [h, h']
      · simp [h, h']
    · by_cases h' : Permits
          ((grantedBy grants' ctx).permissionsOf (firstKey grants' ctx resource)) required
      · simp [h, h']
      · simp [h, h']
  refine ⟨fun hfirst => hiff.mpr ?_, hiff⟩
  unfold Security.permissionsOf
  rw [hfirst]
  simp only [hsame]
  rfl

instance (s : Security) (grants : List Grant) : Decidable (AllGranted s grants) :=
  inferInstanceAs (Decidable (Along _ _ _ _))

/-- `"/f"`. -/
def filePath : CString := ⟨[0x2F, 0x66], by simp⟩

/-- A user's own entry. -/
def ownGrant : Grant := ⟨some filePath, 1000, 1, permRead⟩

/-- An entry of the user's group. -/
def groupGrant : Grant := ⟨some filePath, 2000, 100, permRead ||| permWrite⟩

theorem ownGrant_groupGrant_short : (∀ g ∈ [ownGrant, groupGrant], g.Short) ∧
    ∀ g ∈ [groupGrant, ownGrant], g.Short := by
  have hshort : ∀ g : Grant, g.resource = some filePath → g.Short := by
    intro g hg resource hresource
    rw [hg] at hresource
    obtain rfl := Option.some.inj hresource
    decide
  have hown := hshort ownGrant rfl
  have hgroup := hshort groupGrant rfl
  exact ⟨List.forall_mem_cons.mpr ⟨hown, List.forall_mem_singleton.mpr hgroup⟩,
    List.forall_mem_cons.mpr ⟨hgroup, List.forall_mem_singleton.mpr hown⟩⟩

/-- Two grants for different keys end in the same bindings in both orders. -/
theorem lookup_upsertAll_swap {a b : AclKey × Word} (hne : a.1 ≠ b.1) (rows : List (AclKey × Word))
    (k : AclKey) : (upsertAll rows [a, b]).lookup k = (upsertAll rows [b, a]).lookup k := by
  show (upsert b.1 b.2 (upsert a.1 a.2 rows)).lookup k
    = (upsert a.1 a.2 (upsert b.1 b.2 rows)).lookup k
  rw [lookup_upsert, lookup_upsert, lookup_upsert, lookup_upsert]
  by_cases ha : k = a.1
  · rw [if_pos ha, if_pos ha, if_neg (ha ▸ hne)]
  · rw [if_neg ha, if_neg ha]

theorem ownGrant_groupGrant_granted :
    AllGranted securityInit [ownGrant, groupGrant] ∧
      AllGranted securityInit [groupGrant, ownGrant] := by decide +kernel

theorem ownGrant_groupGrant_same (ctx : SecurityContext) (resource : CString) (uid gid : Word) :
    securityGetPermission (grantedBy [ownGrant, groupGrant] ctx) (some resource) uid gid
      = securityGetPermission (grantedBy [groupGrant, ownGrant] ctx) (some resource) uid gid := by
  obtain ⟨hshort, hshort'⟩ := ownGrant_groupGrant_short
  rw [securityGetPermission_eq, securityGetPermission_eq,
    rows_grantedBy ownGrant_groupGrant_granted.1 hshort,
    rows_grantedBy ownGrant_groupGrant_granted.2 hshort']
  exact lookup_upsertAll_swap (by decide) initRows _

theorem access_order_own_group :
    firstKey [ownGrant, groupGrant] (contextOf 1000 1) filePath
        = firstKey [groupGrant, ownGrant] (contextOf 1000 1) filePath ∧
      ∀ required,
        securityCheckFileAccess (grantedBy [ownGrant, groupGrant] (contextOf 1000 1))
            (some filePath) required
          = securityCheckFileAccess (grantedBy [groupGrant, ownGrant] (contextOf 1000 1))
            (some filePath) required := by
  have hfirst : firstKey [ownGrant, groupGrant] (contextOf 1000 1) filePath
      = firstKey [groupGrant, ownGrant] (contextOf 1000 1) filePath := by decide
  obtain ⟨hshort, hshort'⟩ := ownGrant_groupGrant_short
  exact ⟨hfirst, (access_order_iff ownGrant_groupGrant_granted.1 ownGrant_groupGrant_granted.2
    hshort hshort' (contextOf 1000 1) (ownGrant_groupGrant_same _) filePath).1 hfirst⟩

/-- User 1000 in group 100 may write to the file if the group's entry was set first, and may not if
the user's own was. -/
theorem access_depends_on_order :
    AllGranted securityInit [ownGrant, groupGrant] ∧
      AllGranted securityInit [groupGrant, ownGrant] ∧
      (∀ resource uid gid,
        securityGetPermission (grantedBy [ownGrant, groupGrant] (contextOf 1000 100))
            (some resource) uid gid
          = securityGetPermission (grantedBy [groupGrant, ownGrant] (contextOf 1000 100))
            (some resource) uid gid) ∧
      securityCheckFileAccess (grantedBy [ownGrant, groupGrant] (contextOf 1000 100))
          (some filePath) permWrite = -1 ∧
      securityCheckFileAccess (grantedBy [groupGrant, ownGrant] (contextOf 1000 100))
          (some filePath) permWrite = 0 :=
  ⟨ownGrant_groupGrant_granted.1, ownGrant_groupGrant_granted.2, ownGrant_groupGrant_same _,
    by decide +kernel, by decide +kernel⟩

end MinimalistOS
