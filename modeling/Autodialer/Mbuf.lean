import Mathlib.Data.List.Basic
import Mathlib.Tactic.Linarith

/-!
# Memory buffers and RTP headers (`mbuf.c`, `rtp.c`)

A memory buffer is a block of bytes with a position and an end; what is sent is what stands
between them. Bytes of fresh memory are `none`. Allocations do not fail.

* `put_put`: in a block that has the room, two writes are one.
* `left_put_front`: bytes written in front of a payload that was written before them.
* `rtpHdrEncode_eq`: the header is written as its bytes.
* `rtpDecode_bytes`: the receiver reads the fields that were written.
-/

namespace Autodialer

/-! ## Memory buffers -/

/-- `struct mbuf`; `size` is the length of `buf`, which is empty if the pointer is null. -/
structure Mbuf where
  buf : List (Option UInt8) := []
  pos : Nat := 0
  endPos : Nat := 0

namespace Mbuf

def defaultSize : Nat := 512

/-- `mbuf_alloc` -/
def alloc (size : Nat) : Mbuf where
  buf := List.replicate (if size = 0 then defaultSize else size) none

/-- `mbuf_reset`: the block is freed. -/
def reset (_ : Mbuf) : Mbuf := {}

/-- `mbuf_resize` -/
def resize (mb : Mbuf) (size : Nat) : Mbuf :=
  { mb with buf := mb.buf.take size ++ List.replicate (size - mb.buf.length) none }

/-- The block has room for `rsize` bytes. -/
def grow (mb : Mbuf) (rsize : Nat) : Mbuf :=
  if mb.buf.length < rsize then
    mb.resize (max rsize (if mb.buf.length = 0 then defaultSize else mb.buf.length * 2))
  else mb

/-- The `memcpy` of `mbuf_write_mem`, and what follows it. -/
def put (mb : Mbuf) (bytes : List UInt8) : Mbuf where
  buf := mb.buf.take mb.pos ++ bytes.map some ++ mb.buf.drop (mb.pos + bytes.length)
  pos := mb.pos + bytes.length
  endPos := max mb.endPos (mb.pos + bytes.length)

/-- `mbuf_write_mem`; `none` is EINVAL, which a null pointer gives. -/
def writeMem (mb : Mbuf) : Option (List UInt8) → Option Mbuf
  | none => none
  | some bytes => some ((mb.grow (mb.pos + bytes.length)).put bytes)

/-- The block that a buffer hands to `udp_send`. -/
def left (mb : Mbuf) : List (Option UInt8) := (mb.buf.drop mb.pos).take (mb.endPos - mb.pos)

variable {mb : Mbuf} {a b : List UInt8}

theorem grow_eq {rsize : Nat} (room : rsize ≤ mb.buf.length) : mb.grow rsize = mb :=
  if_neg (Nat.not_lt.mpr room)

theorem writeMem_room (room : mb.pos + a.length ≤ mb.buf.length) :
    mb.writeMem (some a) = some (mb.put a) := by
  rw [writeMem, grow_eq room]

theorem put_length (room : mb.pos + a.length ≤ mb.buf.length) :
    (mb.put a).buf.length = mb.buf.length := by
  simp only [put, List.length_append, List.length_take, List.length_map, List.length_drop]
  omega

/-- Two writes are one. -/
theorem put_put (room : mb.pos + a.length ≤ mb.buf.length) :
    (mb.put a).put b = mb.put (a ++ b) := by
  have front : (mb.buf.take mb.pos ++ a.map some).length = mb.pos + a.length := by
    rw [List.length_append, List.length_take, List.length_map]
    omega
  simp only [put, Mbuf.mk.injEq, List.length_append, List.map_append]
  refine ⟨?_, by omega, by omega⟩
  rw [List.take_append_of_le_length (by omega), List.take_of_length_le (by omega),
    List.drop_append, front, List.drop_of_length_le (by omega), List.nil_append, List.drop_drop]
  simp only [List.append_assoc]
  congr 4
  omega

theorem length_grow (mb : Mbuf) (rsize : Nat) : rsize ≤ (mb.grow rsize).buf.length := by
  unfold grow
  split
  next small =>
    simp only [resize, List.length_append, List.length_take, List.length_replicate]
    omega
  next large => exact Nat.not_lt.mp large

theorem pos_grow (rsize : Nat) : (mb.grow rsize).pos = mb.pos ∧ (mb.grow rsize).endPos = mb.endPos := by
  unfold grow
  split <;> exact ⟨rfl, rfl⟩

/-- Nothing was written to the buffer. -/
structure Blank (mb : Mbuf) : Prop where
  fresh : ∀ b ∈ mb.buf, b = none
  endPos : mb.endPos = 0

theorem blank_alloc (size : Nat) : (alloc size).Blank :=
  ⟨fun _ mem => (List.mem_replicate.mp mem).2, rfl⟩

theorem blank_reset (mb : Mbuf) : mb.reset.Blank := ⟨(fun _ mem => by cases mem), rfl⟩

theorem Blank.grow (blank : mb.Blank) (rsize : Nat) : (mb.grow rsize).Blank := by
  refine ⟨?_, (pos_grow rsize).2.trans blank.endPos⟩
  unfold Mbuf.grow
  split
  · intro b mem
    rcases List.mem_append.mp mem with old | new
    · exact blank.fresh b (List.mem_of_mem_take old)
    · exact (List.mem_replicate.mp new).2
  · exact blank.fresh

/-- What was written at the start of a block is left to be read. -/
theorem left_put_zero (start : mb.pos = 0) (short : mb.endPos ≤ a.length) :
    ({ mb.put a with pos := 0 } : Mbuf).left = a.map some := by
  simp only [left, put, List.drop_zero, Nat.sub_zero, start, Nat.zero_add, Nat.max_eq_right short,
    List.take_zero, List.nil_append]
  rw [List.take_append_of_le_length (by simp), List.take_of_length_le (by simp)]

/-- What was written behind the first `n` bytes, with these bytes. -/
theorem left_put_behind (short : mb.endPos ≤ mb.pos + a.length) (room : mb.pos ≤ mb.buf.length) :
    ({ mb.put a with pos := 0 } : Mbuf).left = mb.buf.take mb.pos ++ a.map some := by
  have front : (mb.buf.take mb.pos ++ a.map some).length = mb.pos + a.length := by
    rw [List.length_append, List.length_take, List.length_map]
    omega
  simp only [left, put, List.drop_zero, Nat.sub_zero, Nat.max_eq_right short]
  rw [List.take_append_of_le_length (by omega), List.take_of_length_le (by omega)]

/-- The same with these bytes written afterwards. -/
theorem left_put_front (short : mb.endPos ≤ mb.pos + b.length) (isFront : mb.pos = a.length)
    (room : mb.pos ≤ mb.buf.length) :
    ({ ({ mb.put b with pos := 0 } : Mbuf).put a with pos := 0 } : Mbuf).left =
      (a ++ b).map some := by
  rw [isFront] at short room
  have front : (mb.buf.take a.length).length = a.length := by
    rw [List.length_take]
    omega
  have cut : (mb.buf.take a.length ++ b.map some ++ mb.buf.drop (a.length + b.length)).drop a.length =
      b.map some ++ mb.buf.drop (a.length + b.length) := by
    rw [List.append_assoc, List.drop_append_of_le_length (by omega), List.drop_of_length_le (by omega),
      List.nil_append]
  simp only [left, put, List.drop_zero, Nat.sub_zero, Nat.zero_add, List.take_zero, List.nil_append,
    isFront, Nat.max_eq_right short, cut]
  rw [Nat.max_eq_left (Nat.le_add_right _ _), ← List.append_assoc, ← List.map_append,
    List.take_append_of_le_length (by simp), List.take_of_length_le (by simp)]

end Mbuf

/-! ## RTP headers -/

/-- `struct rtp_header` without contributing sources and extension, of which there are none. -/
structure RtpHeader where
  m : Bool
  pt : Nat
  seq : Nat
  ts : Nat
  ssrc : Nat
deriving DecidableEq, Repr

/-- `htons`, as bytes. -/
def be16 (n : Nat) : List UInt8 := [UInt8.ofNat (n / 2 ^ 8), UInt8.ofNat n]

/-- `htonl`, as bytes. -/
def be32 (n : Nat) : List UInt8 := be16 (n / 2 ^ 16) ++ be16 n

/-- The first two bytes: version 2, no padding, no extension, no contributing sources. -/
def rtpFlags (hdr : RtpHeader) : List UInt8 :=
  [0x80, (if hdr.m then 0x80 else 0) ||| (UInt8.ofNat hdr.pt &&& 0x7f)]

/-- `rtp_hdr_encode` -/
def rtpHdrEncode (mb : Mbuf) (hdr : RtpHeader) : Option Mbuf := do
  let mb ← mb.writeMem (some (rtpFlags hdr))
  let mb ← mb.writeMem (some (be16 hdr.seq))
  let mb ← mb.writeMem (some (be32 hdr.ts))
  mb.writeMem (some (be32 hdr.ssrc))

/-- The sending half of `struct rtp_sock`. -/
structure RtpSock where
  seq : Nat
  ssrc : Nat

/-- `rtp_encode`. Its error code is ignored by the caller. -/
def rtpEncode (rs : RtpSock) (marker : Bool) (pt ts : Nat) (mb : Mbuf) : RtpSock × Mbuf :=
  -- pt&~0x7f
  if 128 ≤ pt then (rs, mb)
  else
    ({ rs with seq := (rs.seq + 1) % 2 ^ 16 },
      (rtpHdrEncode mb { m := marker, pt := pt, seq := rs.seq, ts := ts, ssrc := rs.ssrc }).getD mb)

/-- The bytes of a header. -/
def RtpHeader.bytes (hdr : RtpHeader) : List UInt8 :=
  rtpFlags hdr ++ be16 hdr.seq ++ be32 hdr.ts ++ be32 hdr.ssrc

@[simp] theorem RtpHeader.length_bytes (hdr : RtpHeader) : hdr.bytes.length = 12 := rfl

theorem rtpHdrEncode_eq {mb : Mbuf} (room : mb.pos + 12 ≤ mb.buf.length) (hdr : RtpHeader) :
    rtpHdrEncode mb hdr = some (mb.put hdr.bytes) := by
  have room₁ : mb.pos + (rtpFlags hdr).length ≤ mb.buf.length := by
    show mb.pos + 2 ≤ _
    omega
  have room₂ : mb.pos + (rtpFlags hdr ++ be16 hdr.seq).length ≤ mb.buf.length := by
    show mb.pos + 4 ≤ _
    omega
  have room₃ : mb.pos + (rtpFlags hdr ++ be16 hdr.seq ++ be32 hdr.ts).length ≤ mb.buf.length := by
    show mb.pos + 8 ≤ _
    omega
  have second : (mb.put (rtpFlags hdr)).writeMem (some (be16 hdr.seq)) =
      some (mb.put (rtpFlags hdr ++ be16 hdr.seq)) := by
    rw [Mbuf.writeMem_room, Mbuf.put_put room₁]
    rw [Mbuf.put_length room₁]
    exact (show mb.pos + 2 + 2 ≤ _ by omega)
  have third : (mb.put (rtpFlags hdr ++ be16 hdr.seq)).writeMem (some (be32 hdr.ts)) =
      some (mb.put (rtpFlags hdr ++ be16 hdr.seq ++ be32 hdr.ts)) := by
    rw [Mbuf.writeMem_room, Mbuf.put_put room₂]
    rw [Mbuf.put_length room₂]
    exact (show mb.pos + 4 + 4 ≤ _ by omega)
  have fourth : (mb.put (rtpFlags hdr ++ be16 hdr.seq ++ be32 hdr.ts)).writeMem
      (some (be32 hdr.ssrc)) = some (mb.put hdr.bytes) := by
    rw [Mbuf.writeMem_room, Mbuf.put_put room₃]
    · rfl
    rw [Mbuf.put_length room₃]
    exact (show mb.pos + 8 + 4 ≤ _ by omega)
  simp only [rtpHdrEncode, Mbuf.writeMem_room room₁, Option.bind_eq_bind, Option.bind_some, second,
    third, fourth]

/-! ## Reading a header -/

/-- The value of bytes in network order. -/
def ofBytes (bytes : List UInt8) : Nat := bytes.foldl (fun n b => 2 ^ 8 * n + b.toNat) 0

/-- `rtp_decode` on the packets of version 2 with neither contributing sources nor an extension
(the others are `none` here): the header and the payload. -/
def rtpDecode (packet : List UInt8) : Option (RtpHeader × List UInt8) :=
  if packet.length < 12 then none
  else if packet.getD 0 0 ≠ 0x80 then none
  else
    let second := packet.getD 1 0
    some (
      { m := (second >>> 7) &&& 1 = 1, pt := (second &&& 0x7f).toNat,
        seq := ofBytes ((packet.drop 2).take 2), ts := ofBytes ((packet.drop 4).take 4),
        ssrc := ofBytes ((packet.drop 8).take 4) }, packet.drop 12)

theorem ofBytes_be16 {n : Nat} (small : n < 2 ^ 16) : ofBytes (be16 n) = n := by
  simp [ofBytes, be16]
  omega

theorem ofBytes_be32 {n : Nat} (small : n < 2 ^ 32) : ofBytes (be32 n) = n := by
  simp [ofBytes, be32, be16]
  omega

/-- The receiver reads the fields that were written. -/
theorem rtpDecode_bytes (hdr : RtpHeader) (pt : hdr.pt < 128) (seq : hdr.seq < 2 ^ 16)
    (ts : hdr.ts < 2 ^ 32) (ssrc : hdr.ssrc < 2 ^ 32) (payload : List UInt8) :
    rtpDecode (hdr.bytes ++ payload) = some (hdr, payload) := by
  have flags : ∀ m : Bool, ∀ pt < 128,
      ((((if m then 0x80 else 0) ||| (UInt8.ofNat pt &&& 0x7f)) >>> 7) &&& 1 = (1 : UInt8) ↔ m) ∧
        (((if m then 0x80 else 0) ||| (UInt8.ofNat pt &&& 0x7f)) &&& (0x7f : UInt8)).toNat = pt := by
    decide
  obtain ⟨marker, number⟩ := flags hdr.m hdr.pt pt
  have long : 12 ≤ (hdr.bytes ++ payload).length := by
    rw [List.length_append, RtpHeader.length_bytes]
    omega
  have first : (hdr.bytes ++ payload).getD 0 0 = 0x80 := rfl
  rw [rtpDecode, if_neg (Nat.not_lt.mpr long), if_neg (not_not.mpr first)]
  show some ((RtpHeader.mk _ _ (ofBytes (be16 hdr.seq)) (ofBytes (be32 hdr.ts))
    (ofBytes (be32 hdr.ssrc))), payload) = _
  rw [ofBytes_be16 seq, ofBytes_be32 ts, ofBytes_be32 ssrc]
  refine congrArg some (congrArg (·, payload) ?_)
  rw [RtpHeader.mk.injEq]
  refine ⟨?_, number, rfl, rfl, rfl⟩
  rw [Bool.eq_iff_iff, decide_eq_true_iff]
  exact marker

end Autodialer
