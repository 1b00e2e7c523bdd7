import MinimalistOS.Kernel.Page
import MinimalistOS.Kernel.Paging

/-!
# `kernel/usermode.c`: `create_user_process`

The address space of a user process: 1024 pages, one `alloc_page` and one `map_page` each. The
entry point is an argument that the function does not use.
-/

namespace MinimalistOS

open Infra Paging

/-- `PAGE_USER`. -/
def pageUser : Word := 0x004

/-- `user_base`. -/
def userBase : Word := 0x40000000

/-- What `create_user_process` leaves, and what it returns. -/
structure UserProcess where
  mem : Mem
  pages : PageAllocator
  entry : Word

/-- The loop of `create_user_process` from page `i` on, with the number of pages left. A page fault
is `none`. -/
def createUserProcess.loop (k : KernelTables) (m : Mem) (s : PageAllocator) (i : Nat) :
    Nat → Option UserProcess
  | 0 => some { mem := m, pages := s, entry := userBase }
  | n + 1 =>
    let taken := allocPage s
    let physPage := taken.2
    -- out of memory: what was allocated and mapped stays so
    if physPage = 0 then some { mem := m, pages := taken.1, entry := 0 }
    else
      (mapPage k m (userBase + BitVec.ofNat 32 (i * pageSize)) physPage
        (pagePresent ||| pageWrite ||| pageUser)).bind fun m =>
          createUserProcess.loop k m taken.1 (i + 1) n

def createUserProcess (k : KernelTables) (m : Mem) (s : PageAllocator) : Option UserProcess :=
  createUserProcess.loop k m s 0 1024

end MinimalistOS
