import Ps5Debugger.Lib.Bytes
import Mathlib.Logic.Relation

/-!
# Two programs that talk over a connection

A program sends bytes, receives a number of bytes, or has ended with a result (`Proc`). Two of them are
joined by a byte stream in either direction (`Talk`), and take their steps in any order (`Talk.Step`).

The order makes no difference. `Talk.finish` lets the client go as far as it can and the server only when
the client has to wait; `ends_iff` says that every conversation that cannot go on has ended like that.
What is then proved of `finish` is proved step by step, with the rules of "Rules" below.
-/

namespace Lib

/-! ## Programs -/

/-- A program with one connection. -/
inductive Proc (α : Type) : Type where
  | ret (a : α)
  | send (bs : List Byte) (k : Proc α)
  /-- receive exactly `n` bytes -/
  | recv (n : Nat) (k : List Byte → Proc α)

/-- What there is of a program after it was given some bytes: the program, the bytes it has not taken,
the bytes it has sent. -/
structure Fed (α : Type) where
  proc : Proc α
  rest : List Byte
  out : List Byte

/-- Let a program go until it ends or waits for more than it was given. -/
def Proc.feed {α : Type} : Proc α → List Byte → Fed α
  | ret a, q => ⟨ret a, q, []⟩
  | send bs k, q => { k.feed q with out := bs ++ (k.feed q).out }
  | recv n k, q => if n ≤ q.length then (k (q.take n)).feed (q.drop n) else ⟨recv n k, q, []⟩

/-- Send the blocks one after the other. -/
def Proc.sendAll {α : Type} : List (List Byte) → Proc α → Proc α
  | [], k => k
  | bs :: blocks, k => .send bs (sendAll blocks k)

/-! ## Conversations -/

/-- A client and a server, and what is on its way in either direction. -/
structure Talk (α β : Type) where
  client : Proc α
  server : Proc β
  toServer : List Byte
  toClient : List Byte

namespace Talk

variable {α β : Type}

/-- One of the two does what is next for it. -/
inductive Step : Talk α β → Talk α β → Prop where
  | clientSend (bs : List Byte) (k : Proc α) (s : Proc β) (q out : List Byte) :
    Step ⟨.send bs k, s, q, out⟩ ⟨k, s, q ++ bs, out⟩
  | clientRecv (n : Nat) (k : List Byte → Proc α) (s : Proc β) (q out : List Byte) (h : n ≤ out.length) :
    Step ⟨.recv n k, s, q, out⟩ ⟨k (out.take n), s, q, out.drop n⟩
  | serverSend (bs : List Byte) (c : Proc α) (k : Proc β) (q out : List Byte) :
    Step ⟨c, .send bs k, q, out⟩ ⟨c, k, q, out ++ bs⟩
  | serverRecv (n : Nat) (c : Proc α) (k : List Byte → Proc β) (q out : List Byte) (h : n ≤ q.length) :
    Step ⟨c, .recv n k, q, out⟩ ⟨c, k (q.take n), q.drop n, out⟩

/-- A conversation that came to `y` and cannot go on. -/
def Ends (x y : Talk α β) : Prop := Relation.ReflTransGen Step x y ∧ ∀ z, ¬ Step y z

/-- `finish`, by the client. -/
def finishFrom : Proc α → Proc β → List Byte → List Byte → Talk α β
  | .ret a, s, q, out => ⟨.ret a, (s.feed q).proc, (s.feed q).rest, out ++ (s.feed q).out⟩
  | .send bs k, s, q, out => finishFrom k s (q ++ bs) out
  | .recv n k, s, q, out =>
    if n ≤ (out ++ (s.feed q).out).length then
      finishFrom (k ((out ++ (s.feed q).out).take n)) (s.feed q).proc (s.feed q).rest
        ((out ++ (s.feed q).out).drop n)
    else ⟨.recv n k, (s.feed q).proc, (s.feed q).rest, out ++ (s.feed q).out⟩

/-- The end of a conversation. -/
def finish (x : Talk α β) : Talk α β := finishFrom x.client x.server x.toServer x.toClient

/-! ## The order makes no difference -/

/-- What was given later is taken later. -/
theorem feed_feed (p : Proc β) (q : List Byte) :
    (p.feed q).proc.feed (p.feed q).rest = ⟨(p.feed q).proc, (p.feed q).rest, []⟩ := by
  induction p generalizing q with
  | ret a => rfl
  | send bs k ih => exact ih q
  | recv n k ih =>
    by_cases h : n ≤ q.length
    · rw [Proc.feed, if_pos h]
      exact ih _ _
    · rw [Proc.feed, if_neg h]
      exact if_neg h

/-- What is given in two pieces is taken in two pieces. -/
theorem feed_append (p : Proc β) (q q' : List Byte) :
    p.feed (q ++ q') =
      { (p.feed q).proc.feed ((p.feed q).rest ++ q') with
        out := (p.feed q).out ++ ((p.feed q).proc.feed ((p.feed q).rest ++ q')).out } := by
  induction p generalizing q with
  | ret a => rfl
  | send bs k ih =>
    simp only [Proc.feed, ih q, List.append_assoc]
  | recv n k ih =>
    by_cases h : n ≤ q.length
    · have hlong : n ≤ (q ++ q').length := by
        rw [List.length_append]
        omega
      rw [Proc.feed, if_pos hlong, List.take_append_of_le_length h, List.drop_append_of_le_length h, ih,
        Proc.feed, if_pos h]
    · have hshort : (Proc.recv n k).feed q = ⟨.recv n k, q, []⟩ := if_neg h
      rw [hshort]
      rfl

/-- The server may go first. -/
theorem finish_feed (c : Proc α) (s : Proc β) (q out : List Byte) :
    finish ⟨c, (s.feed q).proc, (s.feed q).rest, out ++ (s.feed q).out⟩ = finish ⟨c, s, q, out⟩ := by
  unfold finish
  induction c generalizing s q out with
  | ret a =>
    simp only [finishFrom, feed_feed, List.append_nil]
  | send bs k ih =>
    show finishFrom k _ ((s.feed q).rest ++ bs) _ = finishFrom k s (q ++ bs) out
    rw [← ih, ← ih s (q ++ bs) out, feed_append s q bs, List.append_assoc]
  | recv n k ih =>
    simp only [finishFrom, feed_feed, List.append_nil]

/-- A step of the server is one of those that it would take anyway. -/
theorem finish_server {c : Proc α} {s s' : Proc β} {q q' out bs : List Byte}
    (h : s.feed q = { s'.feed q' with out := bs ++ (s'.feed q').out }) :
    finish ⟨c, s, q, out⟩ = finish ⟨c, s', q', out ++ bs⟩ := by
  rw [← finish_feed c s q out, ← finish_feed c s' q' (out ++ bs), h, List.append_assoc]

theorem finish_of_step {x y : Talk α β} (h : Step x y) : x.finish = y.finish := by
  cases h with
  | clientSend bs k s q out => rfl
  | clientRecv n k s q out h =>
    have hlong : n ≤ (out ++ (s.feed q).out).length := by
      rw [List.length_append]
      omega
    rw [← finish_feed (k (out.take n))]
    show (if n ≤ _ then _ else _) = _
    rw [if_pos hlong, List.take_append_of_le_length h, List.drop_append_of_le_length h]
    rfl
  | serverSend bs c k q out => exact finish_server rfl
  | serverRecv n c k q out h =>
    have hserver : finish ⟨c, .recv n k, q, out⟩ = finish ⟨c, k (q.take n), q.drop n, out ++ []⟩ :=
      finish_server (by rw [Proc.feed, if_pos h]; rfl)
    rwa [List.append_nil] at hserver

theorem finish_of_reaches {x y : Talk α β} (h : Relation.ReflTransGen Step x y) : x.finish = y.finish := by
  induction h with
  | refl => rfl
  | tail _ hstep ih => exact ih.trans (finish_of_step hstep)

/-! ## A conversation comes to its end -/

/-- The server can take the steps of `feed`. -/
theorem reaches_feed (c : Proc α) (s : Proc β) (q out : List Byte) :
    Relation.ReflTransGen Step ⟨c, s, q, out⟩
      ⟨c, (s.feed q).proc, (s.feed q).rest, out ++ (s.feed q).out⟩ := by
  induction s generalizing q out with
  | ret a =>
    simp only [Proc.feed, List.append_nil]
    exact .refl
  | send bs k ih =>
    have hrest := ih q (out ++ bs)
    rw [List.append_assoc] at hrest
    exact .head (.serverSend bs c k q out) hrest
  | recv n k ih =>
    by_cases h : n ≤ q.length
    · rw [Proc.feed, if_pos h]
      exact .head (.serverRecv n c k q out h) (ih _ _ _)
    · rw [Proc.feed, if_neg h, List.append_nil]

theorem reaches_finish (x : Talk α β) : Relation.ReflTransGen Step x x.finish := by
  obtain ⟨c, s, q, out⟩ := x
  unfold finish
  induction c generalizing s q out with
  | ret a => exact reaches_feed (.ret a) s q out
  | send bs k ih => exact .head (.clientSend bs k s q out) (ih s _ out)
  | recv n k ih =>
    have hserver := reaches_feed (.recv n k) s q out
    show Relation.ReflTransGen Step _ (if n ≤ _ then _ else _)
    by_cases h : n ≤ (out ++ (s.feed q).out).length
    · rw [if_pos h]
      exact (hserver.tail (.clientRecv n k _ _ _ h)).trans (ih _ _ _ _)
    · rwa [if_neg h]

/-- A program that was let go has ended, or waits for more than there is. -/
theorem feed_cases (s : Proc β) (q : List Byte) :
    (∃ b, (s.feed q).proc = .ret b) ∨ ∃ n k, (s.feed q).proc = .recv n k ∧ (s.feed q).rest.length < n := by
  induction s generalizing q with
  | ret b => exact .inl ⟨b, rfl⟩
  | send bs k ih => exact ih q
  | recv n k ih =>
    by_cases h : n ≤ q.length
    · rw [Proc.feed, if_pos h]
      exact ih _ _
    · rw [Proc.feed, if_neg h]
      exact .inr ⟨n, k, rfl, not_le.mp h⟩

theorem stuck_finish (x : Talk α β) : ∀ z, ¬ Step x.finish z := by
  obtain ⟨c, s, q, out⟩ := x
  unfold finish
  induction c generalizing s q out with
  | ret a =>
    intro z h
    rcases feed_cases s q with ⟨b, hp⟩ | ⟨n, k, hp, hn⟩
    · simp only [finishFrom, hp] at h
      cases h
    · simp only [finishFrom, hp] at h
      cases h with
      | serverRecv _ _ _ _ _ h => exact absurd h (not_le.mpr hn)
  | send bs k ih => exact ih s _ out
  | recv n k ih =>
    show ∀ z, ¬ Step (if n ≤ _ then _ else _) z
    by_cases hlen : n ≤ (out ++ (s.feed q).out).length
    · rw [if_pos hlen]
      exact ih _ _ _ _
    · rw [if_neg hlen]
      intro z h
      rcases feed_cases s q with ⟨b, hp⟩ | ⟨m, l, hp, hm⟩
      · rw [hp] at h
        cases h with
        | clientRecv _ _ _ _ _ h => exact absurd h hlen
      · rw [hp] at h
        cases h with
        | clientRecv _ _ _ _ _ h => exact absurd h hlen
        | serverRecv _ _ _ _ _ h => exact absurd h (not_le.mpr hm)

/-- **The end does not depend on the order**, and there is one. -/
theorem ends_iff {x y : Talk α β} : x.Ends y ↔ y = x.finish := by
  constructor
  · rintro ⟨hxy, hstuck⟩
    rcases (reaches_finish y).cases_head with heq | ⟨z, hstep, -⟩
    · rw [finish_of_reaches hxy]
      exact heq
    · exact absurd hstep (hstuck z)
  · rintro rfl
    exact ⟨reaches_finish x, stuck_finish x⟩

/-! ## Rules -/

section Rules

variable {c : Proc α} {s : Proc β} {q out : List Byte}

theorem finish_clientSend (bs : List Byte) (k : Proc α) :
    finish ⟨.send bs k, s, q, out⟩ = finish ⟨k, s, q ++ bs, out⟩ := rfl

theorem finish_serverSend (bs : List Byte) (k : Proc β) :
    finish ⟨c, .send bs k, q, out⟩ = finish ⟨c, k, q, out ++ bs⟩ := finish_of_step (.serverSend bs c k q out)

theorem finish_clientRecv {n : Nat} {bs : List Byte} (k : List Byte → Proc α) (h : bs.length = n) :
    finish ⟨.recv n k, s, q, bs ++ out⟩ = finish ⟨k bs, s, q, out⟩ := by
  subst h
  have hstep := finish_of_step (.clientRecv bs.length k s q (bs ++ out) (by simp))
  rwa [List.take_left, List.drop_left] at hstep

theorem finish_serverRecv {n : Nat} {bs : List Byte} (k : List Byte → Proc β) (h : bs.length = n) :
    finish ⟨c, .recv n k, bs ++ q, out⟩ = finish ⟨c, k bs, q, out⟩ := by
  subst h
  have hstep := finish_of_step (.serverRecv bs.length c k (bs ++ q) out (by simp))
  rwa [List.take_left, List.drop_left] at hstep

theorem finish_sendAll (blocks : List (List Byte)) (k : Proc β) :
    finish ⟨c, .sendAll blocks k, q, out⟩ = finish ⟨c, k, q, out ++ blocks.flatten⟩ := by
  induction blocks generalizing out with
  | nil => simp only [Proc.sendAll, List.flatten_nil, List.append_nil]
  | cons bs blocks ih =>
    rw [Proc.sendAll, finish_serverSend, ih, List.flatten_cons, List.append_assoc]

/-- Both have ended. -/
theorem finish_ret (a : α) (b : β) : finish ⟨.ret a, .ret b, q, out⟩ = ⟨.ret a, .ret b, q, out⟩ := by
  simp only [finish, finishFrom, Proc.feed, List.append_nil]

/-- The client has ended, the server waits for more than there is. -/
theorem finish_ret_recv (a : α) {n : Nat} (k : List Byte → Proc β) (h : q.length < n) :
    finish ⟨.ret a, .recv n k, q, out⟩ = ⟨.ret a, .recv n k, q, out⟩ := by
  simp only [finish, finishFrom, Proc.feed, if_neg (not_le.mpr h), List.append_nil]

/-- The server has ended, the client waits for more than there is. -/
theorem finish_recv_ret {n : Nat} (k : List Byte → Proc α) (b : β) (h : out.length < n) :
    finish ⟨.recv n k, .ret b, q, out⟩ = ⟨.recv n k, .ret b, q, out⟩ := by
  simp only [finish, finishFrom, Proc.feed, List.append_nil, if_neg (not_le.mpr h)]

/-- Each waits for the other. -/
theorem finish_deadlock {m n : Nat} (k : List Byte → Proc α) (l : List Byte → Proc β) (hout : out.length < m)
    (hq : q.length < n) : finish ⟨.recv m k, .recv n l, q, out⟩ = ⟨.recv m k, .recv n l, q, out⟩ := by
  simp only [finish, finishFrom, Proc.feed, if_neg (not_le.mpr hq), List.append_nil, if_neg (not_le.mpr hout)]

end Rules

end Talk

end Lib
