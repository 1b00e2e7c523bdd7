import MinimalistOS.Kernel.Serial
import MinimalistOS.Kernel.Vfs
import MinimalistOS.Kernel.Vga

/-!
# `kernel/syscall.c`: `sys_write` and `sys_seek`

A write to the standard output goes to the screen with `vga_print`, which stops at a zero byte, and
to the serial port byte by byte, as many as `count` says.

The buffer is what stands at and after the pointer, without an end: neither loop knows where the
caller's array ends. A run notes the bytes given to `vga_putchar` and every index that is read.
`vga_print` comes back only when it meets a zero byte, so its loop has a number of rounds to go.
-/

namespace MinimalistOS

open Infra

/-- `SYS_ERROR`. -/
def sysError : Word := -1

/-- `0x3F8`. -/
def com1 : BitVec 16 := 0x3F8

/-- The screen, the serial port, and what is noted of the run. -/
structure Stdout where
  vga : Vga
  sent : List Outb
  printed : List Byte
  reads : List Nat

/-- `str[i]` is read. -/
def Stdout.load (s : Stdout) (i : Nat) : Stdout := { s with reads := s.reads ++ [i] }

/-- `vga_putchar(c)`. -/
def Stdout.putchar (s : Stdout) (c : Byte) : Stdout :=
  { s with vga := vgaPutchar s.vga c, printed := s.printed ++ [c] }

/-- `vga_print(buf)` from index `i` on: `while (*str) vga_putchar(*str++)`. -/
def sysWrite.print (buf : Nat → Byte) : Nat → Nat → Stdout → Option Stdout
  | 0, _, _ => none
  | fuel + 1, i, s =>
    if buf i = 0 then some (s.load i)
    else sysWrite.print buf fuel (i + 1) ((s.load i).putchar (buf i))

/-- `for (; i < count; i++) serial_putchar(0x3F8, buf[i])`, with `n` rounds to go. -/
def sysWrite.send (buf : Nat → Byte) : Nat → Nat → Stdout → Stdout
  | 0, _, s => s
  | n + 1, i, s =>
    sysWrite.send buf n (i + 1) { s.load i with sent := serialPutchar com1 (buf i) s.sent }

/-- `sys_write(fd, buf, count)`. -/
def sysWrite (fuel : Nat) (fd : Word) (buf : Nat → Byte) (count : Word) (vga : Vga)
    (sent : List Outb) : Option (Word × Stdout) :=
  if fd = 1 then
    (sysWrite.print buf fuel 0 ⟨vga, sent, [], []⟩).map fun s =>
      (count, sysWrite.send buf count.toNat 0 s)
  else some (sysError, ⟨vga, sent, [], []⟩)

/-- `sys_seek(fd, position)`: what `fs_seek` returns, unless that is negative. -/
def sysSeek (t : Descriptors) (fd : Int) (position : Word) : Descriptors × Word :=
  ((fsSeek t fd position).1,
    if 0 ≤ (fsSeek t fd position).2 then BitVec.ofInt 32 (fsSeek t fd position).2 else sysError)

end MinimalistOS
