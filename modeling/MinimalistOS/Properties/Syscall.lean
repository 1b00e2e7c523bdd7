import MinimalistOS.Kernel.Syscall

/-!
# What a write shows and what it sends

The screen gets the bytes up to the first zero, the serial port gets the first `count`.

* `sysWrite_some_iff` — when a write comes back, and what it has done then
* `write_never_alike` — the two get the same bytes only when the first zero is at index `count`,
  and then that byte has been read
-/

namespace MinimalistOS

open Infra

/-- The first `n` bytes. -/
def firstBytes (buf : Nat → Byte) (n : Nat) : List Byte := (List.range n).map buf

theorem firstBytes_succ (buf : Nat → Byte) (n : Nat) :
    firstBytes buf (n + 1) = buf 0 :: firstBytes (fun j => buf (j + 1)) n := by
  rw [firstBytes, List.range_succ_eq_map, List.map_cons, List.map_map]
  rfl

theorem length_firstBytes (buf : Nat → Byte) (n : Nat) : (firstBytes buf n).length = n := by
  rw [firstBytes, List.length_map, List.length_range]

/-- The first zero byte is at index `k`. -/
def FirstZero (buf : Nat → Byte) (k : Nat) : Prop := (∀ i < k, buf i ≠ 0) ∧ buf k = 0

theorem FirstZero.unique {buf : Nat → Byte} {k k' : Nat} (h : FirstZero buf k)
    (h' : FirstZero buf k') : k = k' := by
  rcases Nat.lt_trichotomy k k' with hlt | heq | hlt
  · exact absurd h.2 (h'.1 k hlt)
  · exact heq
  · exact absurd h'.2 (h.1 k' hlt)

theorem firstZero_succ (buf : Nat → Byte) (h : buf 0 ≠ 0) (k : Nat) :
    FirstZero buf (k + 1) ↔ FirstZero (fun j => buf (j + 1)) k := by
  constructor
  · exact fun ⟨hne, hzero⟩ => ⟨fun i hi => hne (i + 1) (by omega), hzero⟩
  · rintro ⟨hne, hzero⟩
    refine ⟨fun i hi => ?_, hzero⟩
    cases i with
    | zero => exact h
    | succ i => exact hne i (by omega)

/-! ## The two loops -/

/-- The console after `n` bytes from index `i` on are printed and the one behind them is read. -/
def Stdout.print (s : Stdout) (buf : Nat → Byte) (i n : Nat) : Stdout :=
  { s with
    vga := (firstBytes (fun j => buf (i + j)) n).foldl vgaPutchar s.vga
    printed := s.printed ++ firstBytes (fun j => buf (i + j)) n
    reads := s.reads ++ List.range' i (n + 1) }

/-- The console after `n` bytes from index `i` on are sent. -/
def Stdout.send (s : Stdout) (buf : Nat → Byte) (i n : Nat) : Stdout :=
  { s with
    sent := s.sent ++ (firstBytes (fun j => buf (i + j)) n).map (Outb.mk com1)
    reads := s.reads ++ List.range' i n }

theorem shift_index (buf : Nat → Byte) (i : Nat) :
    (fun j => buf (i + (j + 1))) = fun j => buf (i + 1 + j) :=
  funext fun j => by rw [Nat.add_right_comm, Nat.add_assoc]

theorem print_succ (s : Stdout) (buf : Nat → Byte) (i n : Nat) :
    ((s.load i).putchar (buf i)).print buf (i + 1) n = s.print buf i (n + 1) := by
  simp only [Stdout.print, Stdout.load, Stdout.putchar, firstBytes_succ, shift_index,
    List.range'_succ, List.append_assoc, List.foldl_cons, Nat.add_zero, List.singleton_append]

theorem send_succ (s : Stdout) (buf : Nat → Byte) (i n : Nat) :
    Stdout.send { s.load i with sent := serialPutchar com1 (buf i) s.sent } buf (i + 1) n
      = s.send buf i (n + 1) := by
  simp only [Stdout.send, Stdout.load, serialPutchar, firstBytes_succ, shift_index,
    List.range'_succ, List.append_assoc, List.map_cons, Nat.add_zero, List.singleton_append]

/-- `vga_print` comes back when the zero byte is near enough, and has shown what is before it. -/
theorem print_some_iff (buf : Nat → Byte) (fuel : Nat) : ∀ (i : Nat) (s s' : Stdout),
    sysWrite.print buf fuel i s = some s' ↔
      ∃ n < fuel, FirstZero (fun j => buf (i + j)) n ∧ s' = s.print buf i n := by
  induction fuel with
  | zero => simp [sysWrite.print]
  | succ fuel ih =>
    intro i s s'
    rw [sysWrite.print]
    by_cases hzero : buf i = 0
    · have hfirst : FirstZero (fun j => buf (i + j)) 0 := ⟨fun _ h => absurd h (by omega), hzero⟩
      rw [if_pos hzero]
      constructor
      · intro h
        refine ⟨0, by omega, hfirst, (Option.some.inj h).symm.trans ?_⟩
        simp [Stdout.print, Stdout.load, firstBytes]
      · rintro ⟨n, -, hn, rfl⟩
        obtain rfl := hfirst.unique hn
        simp [Stdout.print, Stdout.load, firstBytes]
    · have hsucc := firstZero_succ (fun j => buf (i + j)) hzero
      simp only [shift_index] at hsucc
      rw [if_neg hzero, ih]
      constructor
      · rintro ⟨n, hn, hfirst, rfl⟩
        exact ⟨n + 1, by omega, (hsucc n).mpr hfirst, print_succ s buf i n⟩
      · rintro ⟨n, hn, hfirst, rfl⟩
        cases n with
        | zero => exact absurd hfirst.2 hzero
        | succ n => exact ⟨n, by omega, (hsucc n).mp hfirst, (print_succ s buf i n).symm⟩

theorem send_eq (buf : Nat → Byte) (n : Nat) : ∀ (i : Nat) (s : Stdout),
    sysWrite.send buf n i s = s.send buf i n := by
  induction n with
  | zero => intro i s; simp [sysWrite.send, Stdout.send, firstBytes]
  | succ n ih => intro i s; rw [sysWrite.send, ih, send_succ]

/-- **When a write comes back**, the first zero byte is at some index `k`: `k` bytes have been
shown and `count` bytes sent. -/
theorem sysWrite_some_iff {fuel : Nat} {buf : Nat → Byte} {count ret : Word} {vga : Vga}
    {sent : List Outb} {s : Stdout} :
    sysWrite fuel 1 buf count vga sent = some (ret, s) ↔ ret = count ∧
      ∃ k < fuel, FirstZero buf k ∧
        s = ((Stdout.mk vga sent [] []).print buf 0 k).send buf 0 count.toNat := by
  rw [sysWrite, if_pos rfl, Option.map_eq_some_iff]
  have hshift : (fun j => buf (0 + j)) = buf := funext fun j => by rw [Nat.zero_add]
  constructor
  · rintro ⟨s₀, hprint, h⟩
    obtain ⟨rfl, rfl⟩ := Prod.mk.inj h
    obtain ⟨k, hk, hfirst, rfl⟩ := (print_some_iff buf fuel 0 _ _).mp hprint
    rw [hshift] at hfirst
    exact ⟨rfl, k, hk, hfirst, send_eq buf _ 0 _⟩
  · rintro ⟨rfl, k, hk, hfirst, rfl⟩
    rw [← hshift] at hfirst
    exact ⟨_, (print_some_iff buf fuel 0 _ _).mpr ⟨k, hk, hfirst, rfl⟩,
      Prod.ext rfl (send_eq buf _ 0 _)⟩

/-! ## The screen and the port -/

/-- A write comes back and the screen has got exactly the `count` bytes that were sent. -/
def WriteDelivers (buf : Nat → Byte) (count : Word) (vga : Vga) (sent : List Outb) (s : Stdout) :
    Prop :=
  ∃ fuel, sysWrite fuel 1 buf count vga sent = some (count, s) ∧
    s.printed = firstBytes buf count.toNat ∧
    s.sent = sent ++ (firstBytes buf count.toNat).map (Outb.mk com1)

/-- And no byte has been read at or beyond index `count`. -/
def WriteAlike (buf : Nat → Byte) (count : Word) (vga : Vga) (sent : List Outb) : Prop :=
  ∃ s, WriteDelivers buf count vga sent s ∧ ∀ i ∈ s.reads, i < count.toNat

/-- The screen gets what is sent when the first zero byte is where the count ends. -/
theorem writeDelivers_iff (buf : Nat → Byte) (count : Word) (vga : Vga) (sent : List Outb) :
    (∃ s, WriteDelivers buf count vga sent s) ↔ FirstZero buf count.toNat := by
  constructor
  · rintro ⟨s, fuel, hrun, hprinted, -⟩
    obtain ⟨-, k, -, hfirst, rfl⟩ := sysWrite_some_iff.mp hrun
    have hlen := congrArg List.length hprinted
    simp only [Stdout.send, Stdout.print, List.nil_append, length_firstBytes] at hlen
    rwa [← hlen]
  · intro hfirst
    have hshift : (fun j => buf (0 + j)) = buf := funext fun j => by rw [Nat.zero_add]
    refine ⟨_, count.toNat + 1,
      sysWrite_some_iff.mpr ⟨rfl, _, Nat.lt_succ_self _, hfirst, rfl⟩, ?_, ?_⟩
    · simp only [Stdout.send, Stdout.print, List.nil_append, hshift]
    · simp only [Stdout.send, Stdout.print, hshift]

/-- **The two never get the same bytes without a read beyond them.** They get the same bytes exactly
when the first zero byte is at index `count`, and finding it is such a read. -/
theorem write_never_alike (buf : Nat → Byte) (count : Word) (vga : Vga) (sent : List Outb) :
    ((∃ s, WriteDelivers buf count vga sent s) ↔ FirstZero buf count.toNat) ∧
      ¬ WriteAlike buf count vga sent := by
  have hiff := writeDelivers_iff buf count vga sent
  refine ⟨hiff, ?_⟩
  rintro ⟨s, hdelivers, hreads⟩
  have hcount := hiff.mp ⟨s, hdelivers⟩
  obtain ⟨fuel, hrun, -⟩ := hdelivers
  obtain ⟨-, k, -, hfirst, rfl⟩ := sysWrite_some_iff.mp hrun
  obtain rfl := hcount.unique hfirst
  have hlast : count.toNat ∈ List.range' 0 (count.toNat + 1) := by
    rw [List.mem_range'_1]
    omega
  refine absurd (hreads count.toNat ?_) (Nat.lt_irrefl _)
  exact List.mem_append_left _ (List.mem_append_right _ hlast)

/-- `"hi!"` with a count of 2: three bytes are shown and two are sent. -/
theorem write_shows_more :
    (∃ s, sysWrite 4 1 (fun i => [0x68, 0x69, 0x21].getD i 0) 2 (Vga.boot fun _ => 0) []
        = some (2, s) ∧ s.printed = [0x68, 0x69, 0x21] ∧ s.sent = [⟨0x3F8, 0x68⟩, ⟨0x3F8, 0x69⟩]) ∧
      ¬ ∀ buf count vga sent, WriteAlike buf count vga sent := by
  constructor
  · exact ⟨_, rfl, rfl, rfl⟩
  · intro hall
    obtain ⟨s, hdelivers, -⟩ :=
      hall (fun i => [0x68, 0x69, 0x21].getD i 0) 2 (Vga.boot fun _ => 0) []
    have hfirst := (writeDelivers_iff _ _ _ _).mp ⟨s, hdelivers⟩
    exact absurd hfirst.2 (by decide)

end MinimalistOS
