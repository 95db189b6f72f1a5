import StreamFraming.Proofs.Refusal

/-!
# Consuming in pieces

A decoder may remove a command from the buffer at once or piece by piece, and the buffer ends up
the same. For a framer this holds of any pieces (`Framer.consume_consume`): what one of them takes
beyond the cursor comes off the searched part of the line, and so does what they take together. A
session refuses a piece that is not framed. Pieces are all granted exactly if one request for
their total is (`Session.consumes_iff`), and so long as they are, the session is what that one
request leaves (`Session.after_consume_pieces`).
-/

namespace StreamFraming

/-- Removing octets twice is removing as many at once. -/
theorem Framer.consume_consume (f : Framer) (a b : Nat) :
    (f.consume a).consume b = f.consume (a + b) := by
  have hcursor : f.cursor - a - b = f.cursor - (a + b) := Nat.sub_sub ..
  -- the second piece is taken off the cursor first, as far as the first one has left anything of it
  have hexcess : (a - f.cursor) + (b - (f.cursor - a)) = a + b - f.cursor := by omega
  have hprobed : f.probed - (a - f.cursor) - (b - (f.cursor - a)) =
      f.probed - (a + b - f.cursor) := by
    rw [Nat.sub_sub, hexcess]
  show Framer.mk _ (f.cursor - a - b) _ (f.probed - (a - f.cursor) - (b - (f.cursor - a))) = _
  rw [hcursor, hprobed]
  rfl

namespace Session

variable {s : Session} {n : Nat} {sizes : List Nat}

/-- The number of octets in pieces of these sizes. -/
def total : List Nat → Nat
  | [] => 0
  | n :: sizes => n + total sizes

/-- Whether pieces of these sizes can be removed one after the other. -/
def Consumes (s : Session) (sizes : List Nat) : Prop :=
  ∀ outcome ∈ s.outcomes (sizes.map Request.consume), outcome.reply = .done

/-- A request to consume is granted if the octets are framed. -/
theorem reply_consume_eq_done_iff :
    (s.handle (.consume n)).reply = .done ↔ n ≤ s.framer.cursor := by
  by_cases hn : n ≤ s.framer.cursor
  · rw [handle_consume_of_le hn]
    exact ⟨fun _ => hn, fun _ => rfl⟩
  · rw [handle_consume_of_lt (Nat.lt_of_not_le hn)]
    exact ⟨nofun, fun h => absurd h hn⟩

/-- Removals are granted one after the other. -/
theorem consumes_cons_iff :
    s.Consumes (n :: sizes) ↔
      n ≤ s.framer.cursor ∧ (s.handle (.consume n)).session.Consumes sizes := by
  unfold Consumes
  rw [List.map_cons, outcomes, List.forall_mem_cons, reply_consume_eq_done_iff]

/-- Pieces can be removed if all of them together are framed. -/
theorem consumes_iff : s.Consumes sizes ↔ total sizes ≤ s.framer.cursor := by
  induction sizes generalizing s with
  | nil => exact ⟨fun _ => Nat.zero_le _, fun _ => nofun⟩
  | cons n sizes ih =>
    rw [consumes_cons_iff, ih, total]
    constructor
    · rintro ⟨hn, hrest⟩
      rw [handle_consume_of_le hn] at hrest
      change total sizes ≤ s.framer.cursor - n at hrest
      omega
    · intro htotal
      have hn : n ≤ s.framer.cursor := Nat.le_of_add_right_le htotal
      refine ⟨hn, ?_⟩
      rw [handle_consume_of_le hn]
      show total sizes ≤ s.framer.cursor - n
      omega

/-- Pieces that are all framed leave what one piece of their total leaves. -/
theorem after_consume_pieces (h : total sizes ≤ s.framer.cursor) :
    s.after (sizes.map .consume) = (s.handle (.consume (total sizes))).session := by
  rw [handle_consume_of_le h]
  induction sizes generalizing s with
  | nil =>
    show s = { s with framer := s.framer.consume 0 }
    rw [Framer.consume_of_le (Nat.zero_le _)]
    rfl
  | cons n sizes ih =>
    have hn : n ≤ s.framer.cursor := Nat.le_of_add_right_le h
    have hrest : total sizes ≤ (s.handle (.consume n)).session.framer.cursor := by
      rw [handle_consume_of_le hn]
      show total sizes ≤ s.framer.cursor - n
      rw [total] at h
      omega
    show (s.handle (.consume n)).session.after (sizes.map .consume) = _
    rw [ih hrest, handle_consume_of_le hn]
    simp only [total, List.drop_drop, Framer.consume_consume]

/-- Consuming in pieces is consuming at once. A framer ends up the same whether octets are removed
in two pieces or in one, also where a piece or both of them reach beyond the cursor and beyond what
is searched. Of a session, after any requests, pieces are all granted exactly if one piece of their
total is, and then the buffer, the framer and what is owed end up the same, the octets removed
having been there. The first piece that is refused leaves what one piece of the total of those
before it leaves, and that one would have been granted. -/
theorem consume_in_pieces_eq_consume_at_once :
    (∀ (f : Framer) (a b : Nat), (f.consume a).consume b = f.consume (a + b)) ∧
    ∀ (o : Options) (requests : List Request),
      let s := (start o).after requests
      (∀ sizes : List Nat,
        let whole := s.handle (.consume (total sizes))
        (s.Consumes sizes ↔ whole.reply = .done) ∧
        (whole.reply = .done →
          s.after (sizes.map .consume) = whole.session ∧ total sizes ≤ s.bytes.length)) ∧
      ∀ (granted : List Nat) (n : Nat),
        let whole := s.handle (.consume (total granted))
        let last := (s.after (granted.map .consume)).handle (.consume n)
        s.Consumes granted → last.reply ≠ .done →
          whole.reply = .done ∧ last.session = whole.session ∧
          last.reply = .refused (.consumeBeyondFrame n (s.framer.cursor - total granted)) := by
  refine ⟨Framer.consume_consume, ?_⟩
  intro o requests s
  have hcanonical : IsCanonical o (stream requests) ((start o).removals requests)
      ((start o).acknowledgements requests) s := isCanonical_after o requests
  refine ⟨?_, ?_⟩
  · intro sizes whole
    have hwhole : whole.reply = .done ↔ total sizes ≤ s.framer.cursor := reply_consume_eq_done_iff
    rw [hwhole]
    refine ⟨consumes_iff, ?_⟩
    intro htotal
    exact ⟨after_consume_pieces htotal, Nat.le_trans htotal hcanonical.cursor_le_length⟩
  · intro granted n whole last hgranted hlast
    have htotal : total granted ≤ s.framer.cursor := consumes_iff.1 hgranted
    have hafter : s.after (granted.map .consume) = whole.session := after_consume_pieces htotal
    have hcursor : whole.session.framer.cursor = s.framer.cursor - total granted := by
      show (s.handle (.consume (total granted))).session.framer.cursor = _
      rw [handle_consume_of_le htotal]
      rfl
    have hrefused : whole.session.framer.cursor < n := by
      apply Nat.lt_of_not_le
      rw [← reply_consume_eq_done_iff, ← hafter]
      exact hlast
    have hhandle : last = _ := (congrArg (Session.handle · (.consume n)) hafter).trans
      (handle_consume_of_lt hrefused)
    rw [hhandle, hcursor]
    exact ⟨reply_consume_eq_done_iff.2 htotal, rfl, rfl⟩

/-- A command is removed in three pieces, and a fourth reaches into the line that has no end; and a
framer is given pieces that reach beyond all that it knows. -/
theorem consume_in_pieces_eq_consume_at_once_up_to_unfinished_line :
    let s := (start {}).after [.feed [97, 32, 123, 49, 125, 10], .feed [98, 99, 10, 100]]
    s.Consumes [7, 0, 1] ∧ s.after [.consume 7, .consume 0, .consume 1] =
        (s.handle (.consume 8)).session ∧
      (((s.after [.consume 7, .consume 0, .consume 1]).handle (.consume 2)).reply =
        .refused (.consumeBeyondFrame 2 1)) ∧
      (({ cursor := 2, probed := 3 } : Framer).consume 4).consume 9 = {} := by
  intro s
  obtain ⟨hframer, hsession⟩ := consume_in_pieces_eq_consume_at_once
  obtain ⟨hpieces, hfails⟩ :=
    hsession {} [.feed [97, 32, 123, 49, 125, 10], .feed [98, 99, 10, 100]]
  have hwhole : (s.handle (.consume 8)).reply = .done := by decide +kernel
  have hlast : ((s.after [.consume 7, .consume 0, .consume 1]).handle (.consume 2)).reply ≠
      .done := by decide +kernel
  obtain ⟨hiff, heq⟩ := hpieces [7, 0, 1]
  have hconsumes : s.Consumes [7, 0, 1] := hiff.2 hwhole
  obtain ⟨-, -, hreply⟩ := hfails [7, 0, 1] 2 hconsumes hlast
  have hcursor : s.framer.cursor = 9 := by decide +kernel
  refine ⟨hconsumes, (heq hwhole).1, ?_, ?_⟩
  · rw [hcursor] at hreply
    exact hreply
  · rw [hframer]
    rfl

end Session

end StreamFraming
