import FlatImage.Proofs.Reader

/-!
# Requests that are served in full

What is left to be read is some bytes and perhaps a failure behind them, and a request takes bytes
from its front. That is the ideal which the loop of a reader is compared with. The loop asks for
what is still missing until nothing is, or the bytes have ended; who answers is free to choose the
size of every piece, may be asked again after an interruption, and is known only by what it
promises. A reader with a list of sizes is one of those who answer so.
-/

namespace FlatImage

/-- What is left to be read: bytes, and the failure behind them unless they end there. -/
@[ext]
structure Remainder where
  bytes : Bytes
  failure : Option IoError
  deriving DecidableEq

namespace Remainder

/-- The first `want` bytes, and what is left behind them. -/
def cut (s : Remainder) (want : Nat) : Bytes × Remainder :=
  (s.bytes.take want, { s with bytes := s.bytes.drop want })

/-- The first `want` bytes, fewer only at the end. Where a failure is in the way there are none. -/
def ask (s : Remainder) (want : Nat) : Except IoError (Bytes × Remainder) :=
  if s.bytes.length < want then s.failure.elim (.ok (s.cut want)) .error else .ok (s.cut want)

variable {s : Remainder} {want : Nat}

theorem ask_of_enough (enough : s.failure = none ∨ want ≤ s.bytes.length) :
    s.ask want = .ok (s.cut want) := by
  rw [ask]
  by_cases short : s.bytes.length < want
  · rw [if_pos short, enough.resolve_right (Nat.not_le.2 short)]
    rfl
  · rw [if_neg short]

theorem ask_of_short {e : IoError} (failing : s.failure = some e) (short : s.bytes.length < want) :
    s.ask want = .error e := by
  rw [ask, if_pos short, failing]
  rfl

theorem ask_zero (s : Remainder) : s.ask 0 = .ok ([], s) := ask_of_enough (.inr (Nat.zero_le _))

theorem ask_ended (want : Nat) : ask ⟨[], none⟩ want = .ok ([], ⟨[], none⟩) := by
  rw [ask_of_enough (.inl rfl), cut, List.take_nil, List.drop_nil]

/-- A request may be served in two steps. -/
theorem ask_append {front : Bytes} (rest : Bytes) (failure : Option IoError)
    (part : front.length ≤ want) :
    ask ⟨front ++ rest, failure⟩ want
      = (ask ⟨rest, failure⟩ (want - front.length)).map (Prod.map (front ++ ·) id) := by
  have pieces : cut ⟨front ++ rest, failure⟩ want
      = Prod.map (front ++ ·) id (cut ⟨rest, failure⟩ (want - front.length)) := by
    simp only [cut, Prod.map, id_eq]
    rw [List.take_append, List.take_of_length_le part, List.drop_append,
      List.drop_eq_nil_of_le part, List.nil_append]
  have short : (front ++ rest).length < want ↔ rest.length < want - front.length := by
    rw [List.length_append]
    omega
  simp only [ask, pieces, short]
  by_cases fewer : rest.length < want - front.length
  · rw [if_pos fewer, if_pos fewer]
    cases failure <;> rfl
  · rw [if_neg fewer, if_neg fewer]
    rfl

end Remainder

namespace Reader

/-- What a reader has not handed out yet. -/
def remainder (r : Reader) : Remainder := ⟨r.ahead, r.failure⟩

/-- A reader collects what the ideal gives. -/
theorem collect_remainder (r : Reader) (want : Nat) :
    (r.collect want).map (Prod.map Blob.toList remainder) = r.remainder.ask want := by
  cases given : r.collect want with
  | error e =>
    obtain ⟨failing, short⟩ := collect_eq_error given
    exact (Remainder.ask_of_short failing short).symm
  | ok found =>
    obtain ⟨taken, left, same, enough⟩ := collect_eq_ok given
    rw [Remainder.ask_of_enough enough, Remainder.cut, Except.map, Prod.map, taken, remainder,
      left, same]
    rfl

end Reader

/-! ## Who answers -/

/-- The answer to a request. A piece without bytes says that there are no more. -/
inductive Answer where
  | piece (bytes : Bytes)
  | interrupted
  | failed (e : IoError)

/-- Anything that answers requests, with what it promises about its answers to requests for at
least one byte. -/
structure Supply (σ : Type) where
  read : σ → Nat → Answer × σ
  remainder : σ → Remainder
  /-- How often it may still be interrupted before it answers otherwise. -/
  patience : σ → Nat
  piece : ∀ {s next want bytes}, 0 < want → read s want = (.piece bytes, next) →
    bytes.length ≤ want ∧ (remainder s).bytes = bytes ++ (remainder next).bytes
      ∧ (remainder next).failure = (remainder s).failure
  ended : ∀ {s next want}, 0 < want → read s want = (.piece [], next) → remainder s = ⟨[], none⟩
  interrupted : ∀ {s next want}, 0 < want → read s want = (.interrupted, next) →
    remainder next = remainder s ∧ patience next < patience s
  failed : ∀ {s next want e}, 0 < want → read s want = (.failed e, next) →
    remainder s = ⟨[], some e⟩

namespace Supply

variable {σ : Type}

/-- Asks until `want` bytes are there or there are no more, again after each interruption. -/
def fill (s : Supply σ) (state : σ) (want : Nat) : Except IoError (Bytes × σ) :=
  if _ : want = 0 then .ok ([], state)
  else
    match _ : s.read state want with
    | (.piece bytes, next) =>
      if _ : bytes = [] then .ok ([], next)
      else (s.fill next (want - bytes.length)).map (Prod.map (bytes ++ ·) id)
    | (.interrupted, next) => s.fill next want
    | (.failed e, _) => .error e
termination_by (want, s.patience state)
decreasing_by
  -- A piece with bytes leaves fewer to ask for, and an interruption uses up some patience.
  · have more := List.length_pos_iff.2 ‹_›
    exact .left _ _ (by omega)
  · exact .right _ (s.interrupted (Nat.pos_of_ne_zero ‹_›) ‹_›).2

/-- The loop gives what the ideal gives. -/
theorem fill_remainder (s : Supply σ) (state : σ) (want : Nat) :
    (s.fill state want).map (Prod.map id s.remainder) = (s.remainder state).ask want := by
  fun_induction fill s state want with
  | case1 state => exact (Remainder.ask_zero _).symm
  | case2 state want more next answered =>
    have before := s.ended (Nat.pos_of_ne_zero more) answered
    obtain ⟨_, bytes, failure⟩ := s.piece (Nat.pos_of_ne_zero more) answered
    have behind : s.remainder next = ⟨[], none⟩ := by
      rw [before] at bytes failure
      exact Remainder.ext bytes.symm failure
    rw [before, Remainder.ask_ended, Except.map, Prod.map, behind]
    rfl
  | case3 state want more piece next answered some ih =>
    obtain ⟨part, bytes, failure⟩ := s.piece (Nat.pos_of_ne_zero more) answered
    have before : s.remainder state
        = ⟨piece ++ (s.remainder next).bytes, (s.remainder next).failure⟩ :=
      Remainder.ext bytes failure.symm
    rw [before, Remainder.ask_append _ _ part, ← ih]
    cases s.fill next (want - piece.length) <;> rfl
  | case4 state want more next answered ih =>
    rw [ih, (s.interrupted (Nat.pos_of_ne_zero more) answered).1]
  | case5 state want more e next answered =>
    rw [s.failed (Nat.pos_of_ne_zero more) answered,
      Remainder.ask_of_short rfl (Nat.pos_of_ne_zero more)]
    rfl

end Supply

namespace Reader

/-- A reader answers with its pieces, and behind its bytes with its failure if it has one. -/
def answer (r : Reader) (want : Nat) : Answer × Reader :=
  if r.ahead = [] then (r.failure.elim (.piece []) .failed, r)
  else (.piece (r.read want).1.toList, (r.read want).2)

/-- There are three answers: the next bytes, that there are no more, and the failure behind them. -/
private theorem answer_cases (r : Reader) {want : Nat} (pos : 0 < want) :
    (r.remainder = ⟨[], none⟩ ∧ r.answer want = (.piece [], r))
      ∨ (∃ e, r.remainder = ⟨[], some e⟩ ∧ r.answer want = (.failed e, r))
      ∨ ∃ piece next, r.answer want = (.piece piece, next) ∧ piece ≠ [] ∧ piece.length ≤ want
        ∧ r.ahead = piece ++ next.ahead ∧ next.failure = r.failure := by
  by_cases ended : r.ahead = []
  · rw [answer, if_pos ended, remainder, ended]
    cases r.failure with
    | none => exact .inl ⟨rfl, rfl⟩
    | some e => exact .inr (.inl ⟨e, rfl, rfl⟩)
  · obtain ⟨n, less, _, some, piece, next, same⟩ := r.read_eq want
    refine .inr (.inr ⟨_, _, if_neg ended, ?_⟩)
    rw [piece, next, same]
    refine ⟨fun none => ?_, ?_, (List.take_append_drop n _).symm, rfl⟩
    · obtain rfl | empty := List.take_eq_nil_iff.1 none
      · exact Nat.lt_irrefl _ (some pos)
      · exact ended empty
    · rw [List.length_take]
      omega

/-- Readers keep what is promised, whatever the sizes of their pieces are. -/
def supply : Supply Reader where
  read := answer
  remainder := remainder
  patience _ := 0
  piece := by
    intro r next want bytes pos answered
    obtain ⟨none, same⟩ | ⟨e, _, same⟩ | ⟨piece, rest, same, _, part, cut, failure⟩ :=
      r.answer_cases pos
    all_goals rw [same] at answered; cases answered
    · rw [none]
      exact ⟨Nat.zero_le _, rfl, rfl⟩
    · exact ⟨part, cut, failure⟩
  ended := by
    intro r next want pos answered
    obtain ⟨none, _⟩ | ⟨e, _, same⟩ | ⟨piece, rest, same, some, _⟩ := r.answer_cases pos
    · exact none
    all_goals rw [same] at answered; cases answered
    exact absurd rfl some
  interrupted := by
    intro r next want pos answered
    obtain ⟨_, same⟩ | ⟨e, _, same⟩ | ⟨piece, rest, same, _⟩ := r.answer_cases pos
    all_goals rw [same] at answered; cases answered
  failed := by
    intro r next want e pos answered
    obtain ⟨_, same⟩ | ⟨e, failing, same⟩ | ⟨piece, rest, same, _⟩ := r.answer_cases pos
    all_goals rw [same] at answered; cases answered
    exact failing

end Reader

/-! ## Requests in sequence -/

/-- The answers to requests made one after another, each with what the one before has left. -/
def requests {σ α : Type} (ask : σ → Nat → Except IoError (α × σ)) (s : σ) :
    List Nat → Except IoError (List α × σ)
  | [] => .ok ([], s)
  | want :: wants => (ask s want).bind fun found =>
    (requests ask found.2 wants).map (Prod.map (found.1 :: ·) id)

/-- Requests are answered alike where each single one is. -/
theorem requests_map {σ τ α β : Type} {ask : σ → Nat → Except IoError (α × σ)}
    {ask' : τ → Nat → Except IoError (β × τ)} (seen : α → β) (view : σ → τ)
    (one : ∀ s want, (ask s want).map (Prod.map seen view) = ask' (view s) want) (s : σ)
    (wants : List Nat) :
    (requests ask s wants).map (Prod.map (List.map seen) view) = requests ask' (view s) wants := by
  induction wants generalizing s with
  | nil => rfl
  | cons want wants ih =>
    rw [requests, requests, ← one]
    cases ask s want with
    | error e => rfl
    | ok found =>
      change ((requests ask found.2 wants).map _).map _
        = (requests ask' (view found.2) wants).map _
      rw [← ih]
      cases requests ask found.2 wants <;> rfl

/-- Pieces that were handed out one after another, and what is left behind them. They are the
bytes in order. Each is as long as was asked for, or as many bytes as there still were; so it is
shorter only where the bytes end. -/
structure Served (bytes : Bytes) (wants : List Nat) (given : List Bytes) (left : Bytes) :
    Prop where
  whole : given.flatten ++ left = bytes
  count : given.length = wants.length
  filled : ∀ i want piece, wants[i]? = some want → given[i]? = some piece →
    piece.length = min want (bytes.length - (given.take i).flatten.length)
  short : ∀ i want piece, wants[i]? = some want → given[i]? = some piece → piece.length < want →
    (given.take (i + 1)).flatten = bytes

namespace Served

variable {bytes left : Bytes} {wants : List Nat} {given : List Bytes}

/-- A piece of less than was asked for took all the bytes that there still were. -/
private theorem of_filled (whole : given.flatten ++ left = bytes)
    (count : given.length = wants.length)
    (filled : ∀ i want piece, wants[i]? = some want → given[i]? = some piece →
      piece.length = min want (bytes.length - (given.take i).flatten.length)) :
    Served bytes wants given left := by
  refine ⟨whole, count, filled, fun i want piece wanted found fewer => ?_⟩
  have size := filled i want piece wanted found
  have upTo : (given.take (i + 1)).flatten = (given.take i).flatten ++ piece := by
    rw [List.take_add_one, found, List.flatten_append]
    exact congrArg _ (List.append_nil _)
  have within : (given.take (i + 1)).flatten <+: bytes := by
    refine ⟨(given.drop (i + 1)).flatten ++ left, ?_⟩
    rw [← List.append_assoc, ← List.flatten_append, List.take_append_drop, whole]
  refine within.eq_of_length_le ?_
  rw [upTo, List.length_append]
  omega

theorem nil (bytes : Bytes) : Served bytes [] [] bytes :=
  of_filled rfl rfl fun _ _ _ wanted => by cases wanted

theorem cons {want : Nat} (h : Served (bytes.drop want) wants given left) :
    Served bytes (want :: wants) (bytes.take want :: given) left := by
  refine of_filled ?_ (congrArg (· + 1) h.count) fun i want' piece wanted found => ?_
  · rw [List.flatten_cons, List.append_assoc, h.whole, List.take_append_drop]
  · cases i with
    | zero =>
      obtain rfl := Option.some.inj wanted
      obtain rfl := Option.some.inj found
      exact List.length_take
    | succ i =>
      have size := h.filled i want' piece wanted found
      rw [List.length_drop] at size
      rw [List.take_succ_cons, List.flatten_cons, List.length_append, List.length_take, size]
      omega

end Served

/-- Without a failure every sequence of requests is served. -/
theorem served_requests (bytes : Bytes) (wants : List Nat) :
    ∃ given left, requests Remainder.ask ⟨bytes, none⟩ wants = .ok (given, ⟨left, none⟩)
      ∧ Served bytes wants given left := by
  induction wants generalizing bytes with
  | nil => exact ⟨[], bytes, rfl, .nil bytes⟩
  | cons want wants ih =>
    obtain ⟨given, left, run, served⟩ := ih (bytes.drop want)
    refine ⟨bytes.take want :: given, left, ?_, served.cons⟩
    rw [requests, Remainder.ask_of_enough (.inl rfl)]
    change (requests Remainder.ask ⟨bytes.drop want, none⟩ wants).map _ = _
    rw [run]
    rfl

/-- Requests are served by everyone who answers each as the ideal does. -/
theorem served_of_ask {σ α : Type} {ask : σ → Nat → Except IoError (α × σ)} {seen : α → Bytes}
    {view : σ → Remainder}
    (one : ∀ s want, (ask s want).map (Prod.map seen view) = (view s).ask want) {s : σ}
    (sound : (view s).failure = none) (wants : List Nat) :
    ∃ given last, requests ask s wants = .ok (given, last)
      ∧ Served (view s).bytes wants (given.map seen) (view last).bytes := by
  have ideal : view s = ⟨(view s).bytes, none⟩ := Remainder.ext rfl sound
  obtain ⟨given, left, run, served⟩ := served_requests (view s).bytes wants
  have same := requests_map seen view one s wants
  rw [ideal, run] at same
  cases own : requests ask s wants with
  | error e =>
    rw [own] at same
    cases same
  | ok found =>
    rw [own] at same
    obtain ⟨pieces, last⟩ := Prod.mk.inj (Except.ok.inj same)
    refine ⟨found.1, found.2, rfl, ?_⟩
    rw [pieces, last]
    exact served

end FlatImage
