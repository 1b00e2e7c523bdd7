import MinimalistOS.Infra.Run
import MinimalistOS.Kernel.String

/-!
# `kernel/security.c`: users, access control and the current identity

One security context for the whole kernel, a table of sixteen users and a table of sixty-four
access control entries. Entries are only ever added at the end of the tables, so the two counters
never exceed the tables' sizes; the structure carries these bounds.

A `const char*` argument is an optional string, `none` for `NULL`. The loops of the source return
at the first entry that meets a condition; each is a `findSlot` with that condition. The four
wrappers of `kernel/syscall.c` that change the state are at the end.
-/

namespace MinimalistOS

open Infra

/-- `ROOT_UID`. -/
def rootUid : Word := 0

/-- `PERM_READ`. -/
def permRead : Word := 0x001

/-- `PERM_WRITE`. -/
def permWrite : Word := 0x002

/-- `PERM_EXECUTE`. -/
def permExecute : Word := 0x004

/-- `PERM_DELETE`. -/
def permDelete : Word := 0x008

/-- `PERM_ADMIN`. -/
def permAdmin : Word := 0x800

/-- `PERM_READ | PERM_WRITE | PERM_EXECUTE | PERM_DELETE | PERM_ADMIN`. -/
def permAll : Word := permRead ||| permWrite ||| permExecute ||| permDelete ||| permAdmin

/-- `security_context_t`. -/
structure SecurityContext where
  uid : Word
  gid : Word
  euid : Word
  egid : Word
  permissions : Word
  deriving DecidableEq, Repr, Inhabited

/-- `user_entry_t`. -/
structure UserEntry where
  username : Vector Byte 32
  uid : Word
  gid : Word
  password : Vector Byte 32
  active : Bool
  deriving DecidableEq, Inhabited

/-- `acl_entry_extended_t`. -/
structure AclEntry where
  resource : Vector Byte 64
  uid : Word
  gid : Word
  permissions : Word
  deriving DecidableEq, Inhabited

/-- The static data of `security.c`. -/
structure Security where
  currentContext : SecurityContext
  userDb : Vector UserEntry 16
  userCount : Nat
  aclTable : Vector AclEntry 64
  aclCount : Nat
  user_le : userCount ≤ 16
  acl_le : aclCount ≤ 64

namespace Security

/-- `user_db[i]`. -/
def user (s : Security) (i : Nat) : UserEntry := slot s.userDb i

/-- `acl_table[i]`. -/
def acl (s : Security) (i : Nat) : AclEntry := slot s.aclTable i

/-- The caller is root. -/
def isRoot (s : Security) : Bool := s.currentContext.uid == rootUid

end Security

/-- The entry is stored under this name. -/
def UserEntry.named (username : CString) (e : UserEntry) : Bool :=
  strcmp e.username.toList username.bytes == 0

/-- The entry is for this resource. -/
def AclEntry.isFor (resource : CString) (e : AclEntry) : Bool :=
  strcmp e.resource.toList resource.bytes == 0

/-! ## The context -/

def securitySetContext (s : Security) (uid gid : Word) : Security × Int :=
  if s.isRoot then
    ({ s with currentContext :=
        { uid := uid, gid := gid, euid := uid, egid := gid,
          permissions := if uid == rootUid then permAll else permRead ||| permExecute } }, 0)
  else (s, -1)

/-- `security_get_context`: what is copied to `*ctx`, and `none` for `-1`. -/
def securityGetContext (s : Security) (ctx : Option SecurityContext) : Option SecurityContext :=
  ctx.map fun _ => s.currentContext

/-! ## Access checks -/

def securityCheckPermission (s : Security) (requiredPerm : Word) : Int :=
  if s.currentContext.permissions &&& requiredPerm == requiredPerm then 0 else -1

/-- The entry decides about the access of a caller: it is the caller's, the caller's group's, or
root's. -/
def AclEntry.decides (filename : CString) (ctx : SecurityContext) (e : AclEntry) : Bool :=
  e.isFor filename && (e.uid == ctx.uid || e.gid == ctx.gid || e.uid == rootUid)

def securityCheckFileAccess (s : Security) (filename : Option CString) (requiredPerm : Word) :
    Int :=
  match filename with
  | none => -1
  | some filename =>
    match findSlot s.aclTable (AclEntry.decides filename s.currentContext) 0 s.aclCount with
    | some i => if (s.acl i).permissions &&& requiredPerm == requiredPerm then 0 else -1
    | none => securityCheckPermission s requiredPerm

def securityCheckDeviceAccess (s : Security) (devname : Option CString) (requiredPerm : Word) :
    Int :=
  match devname with
  | none => -1
  | some _ => if s.isRoot then securityCheckPermission s requiredPerm else -1

/-- The entry is the one for a key. -/
def AclEntry.hasKey (resource : CString) (uid gid : Word) (e : AclEntry) : Bool :=
  e.isFor resource && e.uid == uid && e.gid == gid

/-- A new entry at the end of the access control list. -/
def addAcl (s : Security) (h : s.aclCount < 64) (resource : CString) (uid gid perm : Word) :
    Security :=
  { s with
    aclTable := modifySlot s.aclTable s.aclCount fun e =>
      { resource := (strncpy e.resource resource.bytes 63).setIfInBounds 63 0
        uid := uid, gid := gid, permissions := perm }
    aclCount := s.aclCount + 1
    acl_le := h }

def securitySetPermission (s : Security) (resource : Option CString) (uid gid perm : Word) :
    Security × Int :=
  match resource with
  | none => (s, -1)
  | some resource =>
    if h : s.aclCount < 64 then
      if s.isRoot then
        match findSlot s.aclTable (AclEntry.hasKey resource uid gid) 0 s.aclCount with
        | some i =>
          ({ s with aclTable := modifySlot s.aclTable i fun e => { e with permissions := perm } },
            0)
        | none => (addAcl s h resource uid gid perm, 0)
      else (s, -1)
    else (s, -1)

/-- `security_get_permission`: what is left in `*perm`, and `none` for `-1`. -/
def securityGetPermission (s : Security) (resource : Option CString) (uid gid : Word) :
    Option Word :=
  match resource with
  | none => none
  | some resource =>
    (findSlot s.aclTable (AclEntry.hasKey resource uid gid) 0 s.aclCount).map fun i =>
      (s.acl i).permissions

/-! ## Users -/

/-- A new entry at the end of the user database. It has no password. -/
def addUser (s : Security) (h : s.userCount < 16) (username : CString) (uid gid : Word) :
    Security :=
  { s with
    userDb := modifySlot s.userDb s.userCount fun e =>
      { username := (strncpy e.username username.bytes 31).setIfInBounds 31 0
        uid := uid, gid := gid
        password := e.password.setIfInBounds 0 0
        active := true }
    userCount := s.userCount + 1
    user_le := h }

def securityCreateUser (s : Security) (username : Option CString) (uid gid : Word) :
    Security × Int :=
  match username with
  | none => (s, -1)
  | some username =>
    if h : s.userCount < 16 then
      if s.isRoot then
        -- the search does not look at `active`: the name of a deleted user stays taken
        match findSlot s.userDb (UserEntry.named username) 0 s.userCount with
        | some _ => (s, -1)
        | none => (addUser s h username uid gid, 0)
      else (s, -1)
    else (s, -1)

def securityDeleteUser (s : Security) (uid : Word) : Security × Int :=
  if s.isRoot then
    if uid == rootUid then (s, -1)
    else
      match findSlot s.userDb (fun e => e.uid == uid) 0 s.userCount with
      | some i =>
        ({ s with userDb := modifySlot s.userDb i fun e => { e with active := false } }, 0)
      | none => (s, -1)
  else (s, -1)

/-- The password field of user `i` is overwritten. -/
def storePassword (s : Security) (i : Nat) (password : CString) : Security :=
  { s with userDb := modifySlot s.userDb i fun e =>
      { e with password := (strncpy e.password password.bytes 31).setIfInBounds 31 0 } }

/-- The entry is an active one of this user id. -/
def UserEntry.activeWith (uid : Word) (e : UserEntry) : Bool := e.uid == uid && e.active

def securitySetUserPassword (s : Security) (uid : Word) (password : Option CString) :
    Security × Int :=
  match password with
  | none => (s, -1)
  | some password =>
    if s.isRoot || s.currentContext.uid == uid then
      match findSlot s.userDb (UserEntry.activeWith uid) 0 s.userCount with
      | some i => (storePassword s i password, 0)
      | none => (s, -1)
    else (s, -1)

/-- The entry lets somebody with this name and password in. -/
def UserEntry.admits (username password : CString) (e : UserEntry) : Bool :=
  e.active && e.named username && strcmp e.password.toList password.bytes == 0

def securityAuthenticateUser (s : Security) (username password : Option CString) :
    Security × Int :=
  match username, password with
  | some username, some password =>
    match findSlot s.userDb (UserEntry.admits username password) 0 s.userCount with
    -- the answer of `security_set_context` is not looked at
    | some i => ((securitySetContext s (s.user i).uid (s.user i).gid).1, 0)
    | none => (s, -1)
  | _, _ => (s, -1)

/-! ## `security_init` -/

/-- The tables cleared and the context root's. -/
def Security.cleared : Security where
  currentContext :=
    { uid := rootUid, gid := rootUid, euid := rootUid, egid := rootUid, permissions := permAll }
  userDb := Vector.replicate 16 ⟨Vector.replicate 32 0, 0, 0, Vector.replicate 32 0, false⟩
  userCount := 0
  aclTable := Vector.replicate 64 ⟨Vector.replicate 64 0, 0, 0, 0⟩
  aclCount := 0
  user_le := Nat.zero_le 16
  acl_le := Nat.zero_le 64

/-- `"root"`. -/
def rootName : CString := ⟨[0x72, 0x6F, 0x6F, 0x74], by simp⟩

/-- `"/dev"`. -/
def devPath : CString := ⟨[0x2F, 0x64, 0x65, 0x76], by simp⟩

/-- `"/proc"`. -/
def procPath : CString := ⟨[0x2F, 0x70, 0x72, 0x6F, 0x63], by simp⟩

/-- `"/sys"`. -/
def sysPath : CString := ⟨[0x2F, 0x73, 0x79, 0x73], by simp⟩

/-- `security_init`. Nothing of the state before it is kept. -/
def securityInit : Security :=
  let s := (securityCreateUser Security.cleared (some rootName) rootUid rootUid).1
  let s := (securitySetPermission s (some devPath) rootUid rootUid
    (permRead ||| permWrite ||| permAdmin)).1
  let s := (securitySetPermission s (some procPath) rootUid rootUid (permRead ||| permAdmin)).1
  (securitySetPermission s (some sysPath) rootUid rootUid (permRead ||| permAdmin)).1

/-! ## The wrappers of `kernel/syscall.c` -/

/-- `sys_getuid`. -/
def sysGetuid (s : Security) : Word :=
  match securityGetContext s (some default) with
  | some ctx => ctx.uid
  | none => -1

/-- `sys_getgid`. -/
def sysGetgid (s : Security) : Word :=
  match securityGetContext s (some default) with
  | some ctx => ctx.gid
  | none => -1

/-- The `int` a function returns, as the `uint32_t` its wrapper returns. -/
def asUint32 (r : Security × Int) : Security × Word := (r.1, BitVec.ofInt 32 r.2)

def sysSetuid (s : Security) (uid : Word) : Security × Word :=
  asUint32 (securitySetContext s uid (sysGetgid s))

def sysSetgid (s : Security) (gid : Word) : Security × Word :=
  asUint32 (securitySetContext s (sysGetuid s) gid)

def sysChmod (s : Security) (path : Option CString) (mode : Word) : Security × Word :=
  asUint32 (securitySetPermission s path (sysGetuid s) (sysGetgid s) mode)

def sysChown (s : Security) (path : Option CString) (uid gid : Word) : Security × Word :=
  asUint32 (securitySetPermission s path uid gid (permRead ||| permWrite ||| permExecute))

/-! ## Calls -/

inductive SecurityCall where
  | setContext (uid gid : Word)
  | setPermission (resource : Option CString) (uid gid perm : Word)
  | createUser (username : Option CString) (uid gid : Word)
  | deleteUser (uid : Word)
  | setUserPassword (uid : Word) (password : Option CString)
  | authenticateUser (username password : Option CString)
  | sysSetuid (uid : Word)
  | sysSetgid (gid : Word)
  | sysChmod (path : Option CString) (mode : Word)
  | sysChown (path : Option CString) (uid gid : Word)
  deriving DecidableEq

/-- The answer of a call: an `int`, or what one of the wrappers returns. -/
inductive SecurityAnswer where
  | int (ret : Int)
  | uint32 (ret : Word)
  deriving DecidableEq

/-- The effect of a call and its answer. -/
def Security.step (s : Security) : SecurityCall → Security × SecurityAnswer
  | .setContext uid gid => (securitySetContext s uid gid).map id .int
  | .setPermission resource uid gid perm =>
    (securitySetPermission s resource uid gid perm).map id .int
  | .createUser username uid gid => (securityCreateUser s username uid gid).map id .int
  | .deleteUser uid => (securityDeleteUser s uid).map id .int
  | .setUserPassword uid password => (securitySetUserPassword s uid password).map id .int
  | .authenticateUser username password =>
    (securityAuthenticateUser s username password).map id .int
  | .sysSetuid uid => (MinimalistOS.sysSetuid s uid).map id .uint32
  | .sysSetgid gid => (MinimalistOS.sysSetgid s gid).map id .uint32
  | .sysChmod path mode => (MinimalistOS.sysChmod s path mode).map id .uint32
  | .sysChown path uid gid => (MinimalistOS.sysChown s path uid gid).map id .uint32

end MinimalistOS
