/-
  `Util` (util.cc): reading a line off the socket, and cutting a string in two.
-/
import MyHttpServer.Lib.WhileLoop
import MyHttpServer.Model.Socket

namespace MyHttpServer

namespace Util

/-! ## `ReaLine` -/

/-- The variables of `ReaLine` at the head of its loop. -/
structure LineState where
  ch : UInt8
  out : Bytes
  sock : RecvSide

/-- `ch` after `recv(sock, &ch, 1, ..)`: a call that fails leaves it alone. -/
def store (ch : UInt8) : RecvResult → UInt8
  | .byte b => b
  | .eof | .err _ => ch

/-- The body of `while(ch != '\n')`; the results are the return value, `out`
    and the socket. -/
def reaLineStep (s : LineState) : LineState ⊕ ℤ × Bytes × RecvSide :=
  if s.ch = LF then .inr (toInt s.out.length, s.out, s.sock)
  else
    match s.sock.recv false with
    | (.byte ch, sock) =>
      if ch = CR then
        -- the return value of the peek is dropped: if it fails, `ch` is still '\r'
        let (r, sock) := sock.recv true
        if store ch r = LF then
          let (r', sock) := sock.recv false
          .inl ⟨store (store ch r) r', s.out ++ [store (store ch r) r'], sock⟩
        else .inl ⟨LF, s.out ++ [LF], sock⟩
      else .inl ⟨ch, s.out ++ [ch], sock⟩
    | (.eof, sock) => .inr (0, s.out, sock)
    | (.err _, sock) => .inr (-1, s.out, sock)

theorem length_of_recv {s t : RecvSide} {b : UInt8} (h : s.recv false = (.byte b, t)) :
    t.stream.length < s.stream.length := by
  rw [RecvSide.stream_of_recv h]; simp

theorem length_recv_le (s : RecvSide) (peek : Bool) :
    (s.recv peek).2.stream.length ≤ s.stream.length := by
  rw [RecvSide.stream_recv]
  split <;> simp

theorem reaLineStep_lt {s t : LineState} (h : reaLineStep s = .inl t) :
    t.sock.stream.length < s.sock.stream.length := by
  unfold reaLineStep at h
  split at h
  · cases h
  split at h
  · rename_i ch sock hr
    have hlt := length_of_recv hr
    have hp := length_recv_le sock true
    have hp' := length_recv_le (sock.recv true).2 false
    split at h
    · dsimp only at h
      split at h <;> cases h
      · simp only; omega
      · simp only; omega
    · cases h; exact hlt
  all_goals cases h

/-- `while(ch != '\n') { ... }`: every round takes a byte off the socket. -/
def reaLineLoop : WhileLoop LineState (ℤ × Bytes × RecvSide) where
  step := reaLineStep
  variant s := s.sock.stream.length
  variant_lt := reaLineStep_lt

/-- `Util::ReaLine(sock, out)`: the return value, `out` and the socket. -/
def reaLine (sock : RecvSide) (out : Bytes) : ℤ × Bytes × RecvSide :=
  reaLineLoop.run ⟨0, out, sock⟩

theorem reaLineStep_done {s : LineState} {r : ℤ × Bytes × RecvSide}
    (h : reaLineStep s = .inr r) :
    r.2.2.stream.length ≤ s.sock.stream.length ∧ (s.ch ≠ LF → r.1 ≤ 0) := by
  unfold reaLineStep at h
  have hle := length_recv_le s.sock false
  split at h
  · rename_i hch
    simp only [Sum.inr.injEq] at h
    subst h
    exact ⟨le_rfl, fun h' => absurd hch h'⟩
  · split at h
    · split at h
      · dsimp only at h
        split at h <;> cases h
      · cases h
    · rename_i hr; rw [hr] at hle; cases h; exact ⟨hle, by simp⟩
    · rename_i hr; rw [hr] at hle; cases h; exact ⟨hle, by simp⟩

/-- A call that returns a positive value has taken a byte. -/
theorem reaLine_lt {s : RecvSide} {out : Bytes} (h : 0 < (reaLine s out).1) :
    (reaLine s out).2.2.stream.length < s.stream.length := by
  unfold reaLine at h ⊢
  cases hs : reaLineStep ⟨0, out, s⟩ with
  | inl t =>
    have hlt := reaLineStep_lt hs
    have hle : (reaLineLoop.run t).2.2.stream.length ≤ t.sock.stream.length :=
      WhileLoop.run_induct (L := reaLineLoop)
        (P := fun s r => r.2.2.stream.length ≤ s.sock.stream.length)
        (fun _ _ h => (reaLineStep_done h).1)
        (fun _ _ h ih => ih.trans (reaLineStep_lt h).le) t
    rw [WhileLoop.run_next hs]
    exact hle.trans_lt hlt
  | inr r =>
    rw [WhileLoop.run_done hs] at h
    have := (reaLineStep_done hs).2 (show (0 : UInt8) ≠ LF by decide)
    omega

/-! ## `Cutstring` -/

/-- `Util::Cutstring(target, out1, out2, symbol)`.  The position goes through
    an `int`.  (From 2^31 on it is negative and the second `substr` throws; no
    caller has a target of that length, and the model cuts there instead.) -/
def cutstring (target out1 out2 symbol : Bytes) : Bytes × Bytes :=
  let index : ℤ := match find symbol target with
    | some i => toInt i
    | none => npos
  let length : ℤ := symbol.length
  if index ≠ npos then
    (target.take (toSizeT index), target.drop (toSizeT (index + length)))
  else (out1, out2)

end Util

end MyHttpServer
