import Lproxy.Local.Handlers

-- How the greeting of a client is answered.
namespace Lproxy

namespace Socks5

-- A greeting of RFC 1928 that names `methods`, which other bytes may follow.
structure Greets (p methods : Data) : Prop where
  version : p[0]? = some 0x05
  methods : ∃ n, p[1]? = some n ∧ 2 + n.toNat ≤ p.length ∧ methods = (p.drop 2).take n.toNat

-- The beginning of a greeting, of which the methods have not all been sent.
structure CutGreeting (p : Data) : Prop where
  version : p[0]? = some 0x05
  length : ∀ n, p[1]? = some n → p.length < 2 + n.toNat

end Socks5

namespace Local.Session

open Socks5

variable {s : Session} {r : Data} {method : Byte}

-- The session answers a first read of `r` with a method.
def Answers (s : Session) (r : Data) (method : Byte) : Prop :=
  s.leftReadSocks5Step1 false r =
    s.start (.leftWrite [0x05, method] .leftWriteSocks5Step1Handler)

-- The answer goes by what the client has sent: no authentication is required if the client offers
-- that, and no method is acceptable if it does not.
structure AnswersByMethods (s : Session) (r : Data) : Prop where
  noAuthentication : s.Answers r 0x00 → ∃ methods, Greets r methods ∧ 0x00 ∈ methods
  noneAcceptable : s.Answers r 0xff → ∃ methods, Greets r methods ∧ 0x00 ∉ methods

-- What follows the bytes of the client in the buffer.
def filler : Nat → Byte :=
  fun _ => 0

theorem memory_buffer (r : Data) :
    memory (overwrite (zeros maxLength) r) filler = memory r filler := by
  funext i
  by_cases h : i < r.length
  case pos => simp [memory, overwrite, List.getElem?_append_left h]
  case neg =>
    have hi : r.length ≤ i := by omega
    simp only [memory, overwrite, List.getElem?_append_right hi, List.getElem?_eq_none hi, zeros,
      List.drop_replicate, List.getElem?_replicate]
    split <;> rfl

-- The greeting that the parser sees.
def seen (r : Data) : IdentReq :=
  ⟨0x05, memory r filler 1, readRange (memory r filler) 2 (memory r filler 1).toNat⟩

theorem step1_eq (h : r.length ≤ maxLength) (s : Session) :
    s.leftReadSocks5Step1 false r =
      if memory r filler 0 = 0x05 then
        s.start (.leftWrite (identResp (seen r)) .leftWriteSocks5Step1Handler)
      else s.sendBad := by
  have hlen : ¬(overwrite (zeros maxLength) r).length < 3 := by
    rw [length_overwrite (by simpa using h), length_zeros]
    decide
  have hm : memory (overwrite (zeros maxLength) r) (fun _ => 0) = memory r filler := memory_buffer r
  simp only [leftReadSocks5Step1, IdentReq.parse, hlen, hm, Bool.false_eq_true, if_false]
  by_cases hv : memory r filler 0 = 0x05
  case pos =>
    rw [if_pos hv, if_neg (not_not.mpr hv), seen]
    simp only [hv]
  case neg => rw [if_neg hv, if_pos hv]

theorem identResp_seen (r : Data) :
    identResp (seen r) = [0x05, if 0x00 ∈ (seen r).methods then 0x00 else 0xff] := by
  unfold identResp
  split <;> rfl

theorem answers_iff (h : r.length ≤ maxLength) : s.Answers r method ↔
    r[0]? = some 0x05 ∧ method = if 0x00 ∈ (seen r).methods then 0x00 else 0xff := by
  have hv : memory r filler 0 = 0x05 ↔ r[0]? = some 0x05 := by
    cases hr : r[0]? <;> simp [memory, filler, hr]
  rw [Answers, step1_eq h, ← hv, identResp_seen]
  split
  case isTrue he  => simp only [he, true_and]; simp [start, eq_comm]
  case isFalse he => simp only [he, false_and]; simp [sendBad, start]

-- Nothing is missing: the parser sees the methods that the client has sent.
theorem greets_seen (hv : r[0]? = some 0x05) (h : ¬CutGreeting r) : Greets r (seen r).methods := by
  have ⟨n, hn, hl⟩ : ∃ n, r[1]? = some n ∧ 2 + n.toNat ≤ r.length := by
    by_contra hc
    exact h ⟨hv, fun n hn => by_contra fun hl => hc ⟨n, hn, by omega⟩⟩
  have hm : memory r filler 1 = n := by simp [memory, hn]
  exact ⟨hv, n, hn, hl, by rw [seen, hm, readRange_memory hl]⟩

theorem Greets.not_cut {methods : Data} (g : Greets r methods) : ¬CutGreeting r := by
  intro h
  have ⟨n, hn, hl, _⟩ := g.methods
  have := h.length n hn
  omega

-- Exactly the greetings that are cut are answered by something that the client has not sent.
theorem answersByMethods_iff (h : r.length ≤ maxLength) :
    AnswersByMethods s r ↔ ¬CutGreeting r := by
  constructor
  case mp =>
    intro a hc
    by_cases hm : 0x00 ∈ (seen r).methods
    case pos =>
      have ⟨_, g, _⟩ := a.noAuthentication ((answers_iff h).mpr ⟨hc.version, by rw [if_pos hm]⟩)
      exact Greets.not_cut g hc
    case neg =>
      have ⟨_, g, _⟩ := a.noneAcceptable ((answers_iff h).mpr ⟨hc.version, by rw [if_neg hm]⟩)
      exact Greets.not_cut g hc
  case mpr =>
    intro hc
    constructor
    case noAuthentication =>
      intro a
      have ⟨hv, hm⟩ := (answers_iff h).mp a
      refine ⟨_, greets_seen hv hc, ?_⟩
      by_contra hn
      simp [hn] at hm
    case noneAcceptable =>
      intro a
      have ⟨hv, hm⟩ := (answers_iff h).mp a
      refine ⟨_, greets_seen hv hc, ?_⟩
      intro hn
      simp [hn] at hm

-- A client that offers two methods.
theorem answersByMethods_two : [5, 2, 2, 0].length ≤ maxLength ∧
    (AnswersByMethods .initial [5, 2, 2, 0] ↔ ¬CutGreeting [5, 2, 2, 0]) :=
  ⟨by decide, answersByMethods_iff (r := [5, 2, 2, 0]) (by decide)⟩

-- The greeting has one method, which is not there yet; it is taken for 0x00.
theorem answers_cut_greeting : ¬∀ (s : Session) (r : Data), r ≠ [] → r.length ≤ maxLength →
    AnswersByMethods s r := by
  intro h
  have a : Answers .initial [5, 1] 0x00 := by
    rw [answers_iff (by decide)]
    decide
  have ⟨_, g, _⟩ := (h .initial [5, 1] (by decide) (by decide)).noAuthentication a
  have ⟨n, hn, hl, _⟩ := g.methods
  cases hn
  simp at hl

end Local.Session
end Lproxy
