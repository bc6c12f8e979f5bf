/-
  The client socket as the kernel presents it to the server.

  The two directions of the connection are independent.  `RecvSide` holds the
  bytes that have arrived and a script of what the network does before each
  further `recv`; `SendSide` holds the bytes put on the wire and a script of
  what each further `send` or `sendfile` accepts.  The sockets of the server
  are non-blocking (`accept4` with `SOCK_NONBLOCK` in `HttpServer::Loop`), so
  `recv` on an empty queue reports `EAGAIN`.

  `RecvSide.calls` is a record of the `recv` calls made so far, for stating
  what a run has met; no function of the server reads it.
-/
import MyHttpServer.Model.Cpp

namespace MyHttpServer

def EAGAIN : ℕ := 11

/-- An error other than "nothing there yet". -/
abbrev HardErrno := {e : ℕ // e ≠ EAGAIN}

/-! ## Receiving -/

/-- What happens on the network before one `recv`: some bytes arrive (perhaps
    none), or the call is going to fail whatever has arrived. -/
inductive RecvEvent where
  | data (bs : Bytes)
  | error (e : HardErrno)
  deriving DecidableEq

/-- The bytes an event brings. -/
def RecvEvent.bytes : RecvEvent → Bytes
  | .data bs => bs
  | .error _ => []

/-- The outcome of `recv(sock, &ch, 1, flags)`: one byte, the peer's close, or
    -1 with an `errno`. -/
inductive RecvResult where
  | byte (b : UInt8)
  | eof
  | err (errno : ℕ)
  deriving DecidableEq

/-- A `recv` call: its flag, the byte that comes next in the stream whether or
    not it has arrived, and the outcome. -/
structure RecvCall where
  peek : Bool
  next : Option UInt8
  result : RecvResult
  deriving DecidableEq

structure RecvSide where
  /-- arrived and not yet read -/
  queue : Bytes
  /-- one event for each following call -/
  coming : List RecvEvent
  /-- the peer has closed behind the last byte of `coming` -/
  closed : Bool
  calls : List RecvCall := []
  deriving DecidableEq

namespace RecvSide

/-- The bytes still to be read, arrived or not. -/
def stream (s : RecvSide) : Bytes := s.queue ++ s.coming.flatMap RecvEvent.bytes

/-- What a `recv` that finds nothing reports. -/
def idle (s : RecvSide) : RecvResult :=
  if s.coming = [] ∧ s.closed then .eof else .err EAGAIN

/-- The socket after the event that precedes a call, and the call's error if
    the event is one. -/
def arrive (s : RecvSide) : Option HardErrno × RecvSide :=
  match s.coming with
  | [] => (none, s)
  | .data bs :: es => (none, { s with queue := s.queue ++ bs, coming := es })
  | .error e :: es => (some e, { s with coming := es })

/-- `recv(sock, &ch, 1, peek ? MSG_PEEK : 0)` -/
def recv (s : RecvSide) (peek : Bool) : RecvResult × RecvSide :=
  let note (r : RecvResult) (t : RecvSide) :=
    (r, { t with calls := s.calls ++ [⟨peek, s.stream.head?, r⟩] })
  match s.arrive with
  | (some e, t) => note (.err e) t
  | (none, t) =>
    match t.queue with
    | [] => note t.idle t
    | b :: q => note (.byte b) (if peek then t else { t with queue := q })

theorem stream_arrive (s : RecvSide) : s.arrive.2.stream = s.stream := by
  unfold arrive
  split <;> simp_all [stream, RecvEvent.bytes]

theorem coming_arrive (s : RecvSide) : s.arrive.2.coming = s.coming.tail := by
  unfold arrive
  split <;> simp_all

theorem closed_arrive (s : RecvSide) : s.arrive.2.closed = s.closed := by
  unfold arrive
  split <;> rfl

/-- **The three ways a `recv` can go**: it is in error, it finds nothing, or it
    delivers the first byte of the queue. -/
theorem recv_cases (s : RecvSide) (peek : Bool) :
    (∃ e t, s.arrive = (some e, t) ∧ s.recv peek =
      (.err e, { t with calls := s.calls ++ [⟨peek, s.stream.head?, .err e⟩] })) ∨
    (∃ t, s.arrive = (none, t) ∧ t.queue = [] ∧ s.recv peek =
      (t.idle, { t with calls := s.calls ++ [⟨peek, s.stream.head?, t.idle⟩] })) ∨
    ∃ b q t, s.arrive = (none, t) ∧ t.queue = b :: q ∧ s.recv peek =
      (.byte b, { t with
        queue := if peek then t.queue else q
        calls := s.calls ++ [⟨peek, s.stream.head?, .byte b⟩] }) := by
  unfold recv
  rcases s.arrive with ⟨_ | e, t⟩
  · rcases hq : t.queue with _ | ⟨b, q⟩
    · exact .inr (.inl ⟨t, rfl, hq, by simp [hq]⟩)
    · refine .inr (.inr ⟨b, q, t, rfl, hq, ?_⟩)
      cases peek <;> simp [hq]
  · exact .inl ⟨e, t, rfl, rfl⟩

theorem idle_ne_byte (s : RecvSide) (b : UInt8) : s.idle ≠ .byte b := by
  unfold idle; split <;> simp

/-- What is left in the stream after a `recv`: without its first byte if the
    call took one. -/
theorem stream_recv (s : RecvSide) (peek : Bool) :
    (s.recv peek).2.stream =
      match (s.recv peek).1, peek with
      | .byte _, false => s.stream.tail
      | _, _ => s.stream := by
  have hs := stream_arrive s
  rcases s.recv_cases peek with ⟨e, t, ha, hr⟩ | ⟨t, ha, hq, hr⟩ | ⟨b, q, t, ha, hq, hr⟩
  · rw [ha] at hs; rw [hr]; exact hs
  · rw [ha] at hs; rw [hr]
    cases hi : t.idle with
    | byte b => exact absurd hi (idle_ne_byte t b)
    | eof | err => exact hs
  · rw [ha] at hs; rw [hr, ← hs]
    cases peek <;> simp [stream, hq]

theorem head_of_recv {s t : RecvSide} {peek : Bool} {b : UInt8}
    (h : s.recv peek = (.byte b, t)) : s.stream.head? = some b := by
  have hs := stream_arrive s
  rcases s.recv_cases peek with ⟨e, u, ha, hr⟩ | ⟨u, ha, hq, hr⟩ | ⟨c, q, u, ha, hq, hr⟩
  · rw [hr] at h; cases h
  · rw [hr, Prod.mk.injEq] at h; exact absurd h.1 (idle_ne_byte u b)
  · rw [hr, Prod.mk.injEq, RecvResult.byte.injEq] at h
    rw [ha] at hs
    rw [← hs, ← h.1]; simp [stream, hq]

/-- A `recv` that takes a byte takes the first one of the stream. -/
theorem stream_of_recv {s t : RecvSide} {b : UInt8} (h : s.recv false = (.byte b, t)) :
    s.stream = b :: t.stream := by
  have hh := head_of_recv h
  have ht := stream_recv s false
  rw [h] at ht
  obtain ⟨bs, hbs⟩ := List.head?_eq_some_iff.1 hh
  simp [ht, hbs]

/-- A peek takes nothing. -/
theorem stream_of_peek {s t : RecvSide} {r : RecvResult} (h : s.recv true = (r, t)) :
    t.stream = s.stream := by
  have ht := stream_recv s true
  rw [h] at ht
  cases r <;> exact ht

/-- Nor does a call that fails. -/
theorem stream_of_fail {s t : RecvSide} {r : RecvResult} {peek : Bool}
    (h : s.recv peek = (r, t)) (hr : ∀ b, r ≠ .byte b) : t.stream = s.stream := by
  have ht := stream_recv s peek
  rw [h] at ht
  cases r with
  | byte b => exact absurd rfl (hr b)
  | eof | err => exact ht

end RecvSide

/-! ## Sending -/

/-- What one `send` or `sendfile` does: it accepts some bytes, at most those
    it is given, or fails. -/
inductive SendEvent where
  | accept (k : ℕ)
  | error
  deriving DecidableEq

structure SendSide where
  /-- all bytes put on the wire so far -/
  wire : Bytes
  /-- one event for each following call; once they have run out, a call
      accepts everything -/
  plan : List SendEvent
  /-- the calls of `send` and `sendfile` so far -/
  calls : ℕ := 0
  deriving DecidableEq

namespace SendSide

/-- `send(sock, bs, bs.size(), 0)` -/
def send (s : SendSide) (bs : Bytes) : ℤ × SendSide :=
  match s.plan with
  | [] => (bs.length, { s with wire := s.wire ++ bs, calls := s.calls + 1 })
  | .accept k :: es =>
    (min k bs.length, { wire := s.wire ++ bs.take k, plan := es, calls := s.calls + 1 })
  | .error :: es => (-1, { s with plan := es, calls := s.calls + 1 })

/-- `sendfile(sock, fd, nullptr, count)` for a descriptor through which
    `content` can be read, `none` if it is not an open one. -/
def sendfile (s : SendSide) (content : Option Bytes) (count : ℕ) : ℤ × SendSide :=
  match content with
  | none => (-1, { s with calls := s.calls + 1 })
  | some bs => s.send (bs.take count)

theorem send_calls (s : SendSide) (bs : Bytes) : (s.send bs).2.calls = s.calls + 1 := by
  unfold send; split <;> rfl

/-- A socket that accepts everything puts all of it on the wire. -/
theorem send_full {s : SendSide} (h : s.plan = []) (bs : Bytes) :
    s.send bs = ((bs.length : ℤ), (⟨s.wire ++ bs, [], s.calls + 1⟩ : SendSide)) := by
  obtain ⟨w, p, c⟩ := s
  subst h; rfl

end SendSide

end MyHttpServer
