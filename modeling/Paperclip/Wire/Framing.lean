import Mathlib.Tactic.Common

/-!
# Length-prefixed frames

A frame is a header of a fixed width that says how long the body is, and the body.

* `Framing`: how lengths are written, and the longest body that is read.
* `Framing.head`: what stands at the head of a stream.
* `Framing.Passes bs s rest`: the stream `s` begins with frames of the bodies `bs`, and `rest` is
  what follows them. More of a stream never changes what was passed (`Passes.append`), and a
  stream of frames passes its bodies (`passes_stream`).
* `head_cut`: a frame that is cut shows how much of it is there.
-/

namespace Wire

/-- How the length of a body is written in front of it. -/
structure Framing (α : Type*) where
  width : Nat
  limit : Nat
  header : Nat → List α
  length : List α → Nat
  width_pos : 0 < width
  header_length (n : Nat) : (header n).length = width
  length_header (n : Nat) (h : n ≤ limit) : length (header n) = n

/-- What stands at the head of a stream. -/
inductive Head (α : Type*) where
  | frame (body rest : List α)
  | tooLarge (len : Nat) (rest : List α)
  | header (read : Nat)
  | body (read expected : Nat)

/-- What a reader leaves of a stream once it has seen its head. -/
def Head.rest {α : Type*} : Head α → List α
  | frame _ rest | tooLarge _ rest => rest
  | header _ | body _ _ => []

namespace Framing

variable {α : Type*} (F : Framing α)

/-- What stands at the head of `s`. -/
def head (s : List α) : Head α :=
  if s.length < F.width then .header s.length
  else if F.limit < F.length (s.take F.width) then
    .tooLarge (F.length (s.take F.width)) (s.drop F.width)
  else if (s.drop F.width).length < F.length (s.take F.width) then
    .body (s.drop F.width).length (F.length (s.take F.width))
  else
    .frame ((s.drop F.width).take (F.length (s.take F.width)))
      ((s.drop F.width).drop (F.length (s.take F.width)))

/-- The frame of a body. -/
def frame (body : List α) : List α := F.header body.length ++ body

/-- The frames of bodies, one after the other. -/
def stream (bodies : List (List α)) : List α := bodies.flatMap F.frame

variable {F} {s rest body : List α} {bs cs : List (List α)} {len : Nat}

@[simp] theorem stream_nil : F.stream [] = [] := rfl

@[simp] theorem stream_cons : F.stream (body :: bs) = F.frame body ++ F.stream bs := rfl

theorem frame_length (body : List α) : (F.frame body).length = F.width + body.length := by
  rw [frame, List.length_append, F.header_length]

/-! ## The head of a stream -/

/-- What it takes for a frame to stand at the head. -/
theorem head_eq_frame (h : F.head s = .frame body rest) :
    F.width ≤ s.length ∧ F.length (s.take F.width) = body.length ∧ body.length ≤ F.limit ∧
      s.drop F.width = body ++ rest := by
  unfold head at h
  split at h
  · simp at h
  split at h
  · simp at h
  split at h
  · simp at h
  next hwidth hlimit hlen =>
    rw [Head.frame.injEq] at h
    obtain ⟨rfl, rfl⟩ := h
    have hbody : ((s.drop F.width).take (F.length (s.take F.width))).length
        = F.length (s.take F.width) := by
      rw [List.length_take]
      omega
    exact ⟨by omega, hbody.symm, by omega, (List.take_append_drop _ _).symm⟩

theorem head_of_frame (hwidth : F.width ≤ s.length)
    (hlen : F.length (s.take F.width) = body.length) (hlimit : body.length ≤ F.limit)
    (hs : s.drop F.width = body ++ rest) : F.head s = .frame body rest := by
  unfold head
  rw [if_neg (by omega), hlen, if_neg (by omega), hs, if_neg (by simp)]
  simp

theorem head_eq_tooLarge (h : F.head s = .tooLarge len rest) :
    F.width ≤ s.length ∧ F.length (s.take F.width) = len ∧ F.limit < len ∧
      s.drop F.width = rest := by
  unfold head at h
  split at h
  · simp at h
  split at h
  · rw [Head.tooLarge.injEq] at h
    obtain ⟨rfl, rfl⟩ := h
    exact ⟨by omega, rfl, by omega, rfl⟩
  split at h <;> simp at h

theorem head_of_tooLarge (hwidth : F.width ≤ s.length) (hlen : F.length (s.take F.width) = len)
    (hlimit : F.limit < len) (hs : s.drop F.width = rest) : F.head s = .tooLarge len rest := by
  unfold head
  rw [if_neg (by omega), hlen, if_pos hlimit, hs]

/-- The header of a stream does not depend on what follows. -/
theorem take_append_of_width (hwidth : F.width ≤ s.length) (more : List α) :
    (s ++ more).take F.width = s.take F.width ∧
      (s ++ more).drop F.width = s.drop F.width ++ more :=
  ⟨List.take_append_of_le_length hwidth, List.drop_append_of_le_length hwidth⟩

theorem head_frame_append (h : F.head s = .frame body rest) (more : List α) :
    F.head (s ++ more) = .frame body (rest ++ more) := by
  obtain ⟨hwidth, hlen, hlimit, hs⟩ := head_eq_frame h
  obtain ⟨htake, hdrop⟩ := take_append_of_width hwidth more
  refine head_of_frame ?_ ?_ hlimit ?_
  · rw [List.length_append]
    omega
  · rw [htake, hlen]
  · rw [hdrop, hs, List.append_assoc]

theorem head_tooLarge_append (h : F.head s = .tooLarge len rest) (more : List α) :
    F.head (s ++ more) = .tooLarge len (rest ++ more) := by
  obtain ⟨hwidth, hlen, hlimit, hs⟩ := head_eq_tooLarge h
  obtain ⟨htake, hdrop⟩ := take_append_of_width hwidth more
  refine head_of_tooLarge ?_ ?_ hlimit ?_
  · rw [List.length_append]
    omega
  · rw [htake, hlen]
  · rw [hdrop, hs]

/-- A frame stands at its own head. -/
theorem head_frame (h : body.length ≤ F.limit) (rest : List α) :
    F.head (F.frame body ++ rest) = .frame body rest := by
  have hheader := F.header_length body.length
  refine head_of_frame ?_ ?_ h ?_
  · rw [List.length_append, frame_length]
    omega
  · rw [frame, List.append_assoc, List.take_left' hheader, F.length_header _ h]
  · rw [frame, List.append_assoc, List.drop_left' hheader]

/-- What stands at the head when a frame is cut. -/
theorem head_cut (h : body.length ≤ F.limit) (hs : s <+: F.frame body) (hne : s ≠ F.frame body) :
    F.head s = if s.length < F.width then .header s.length
      else .body (s.length - F.width) body.length := by
  obtain ⟨more, hmore⟩ := hs
  have hshort : s.length < F.width + body.length := by
    rw [← F.frame_length body, ← hmore, List.length_append]
    have : more ≠ [] := by
      rintro rfl
      exact hne (by rw [← hmore, List.append_nil])
    have := List.length_pos_iff.mpr this
    omega
  unfold head
  by_cases hwidth : s.length < F.width
  · rw [if_pos hwidth, if_pos hwidth]
  have hlen : F.length (s.take F.width) = body.length := by
    have htake := (take_append_of_width (by omega : F.width ≤ s.length) more).1
    rw [← htake, hmore, frame, List.take_left' (F.header_length _), F.length_header _ h]
  rw [if_neg hwidth, if_neg hwidth, hlen, if_neg (by omega), List.length_drop, if_pos (by omega)]

theorem head_nil : F.head [] = .header 0 := by
  rw [head, List.length_nil, if_pos F.width_pos]

/-! ## What a stream passes -/

/-- `s` begins with frames of the bodies `bs`, and `rest` follows them. -/
inductive Passes (F : Framing α) : List (List α) → List α → List α → Prop where
  | nil (s : List α) : Passes F [] s s
  | cons {body rest s : List α} {bs : List (List α)} {after : List α}
      (head : F.head s = .frame body rest) (tail : Passes F bs rest after) :
      Passes F (body :: bs) s after

theorem Passes.append (h : Passes F bs s rest) (more : List α) :
    Passes F bs (s ++ more) (rest ++ more) := by
  induction h with
  | nil s => exact .nil _
  | cons head _ ih => exact .cons (head_frame_append head more) ih

theorem Passes.concat {after : List α} (h : Passes F bs s rest)
    (hhead : F.head rest = .frame body after) : Passes F (bs ++ [body]) s after := by
  induction h with
  | nil s => exact .cons hhead (.nil _)
  | cons head _ ih => exact .cons head (ih hhead)

theorem passes_stream (h : ∀ b ∈ bs, b.length ≤ F.limit) (rest : List α) :
    Passes F bs (F.stream bs ++ rest) rest := by
  induction bs with
  | nil => exact .nil _
  | cons b bs ih =>
    rw [stream_cons, List.append_assoc]
    exact .cons (head_frame (h b List.mem_cons_self) _)
      (ih fun b hb => h b (List.mem_cons_of_mem _ hb))

/-! ## Cutting a stream -/

/-- A stream that is cut holds whole frames, and at most the beginning of one more. -/
theorem cut_stream (hs : s <+: F.stream bs) :
    ∃ n ≤ bs.length, ∃ q, s = F.stream (bs.take n) ++ q ∧
      ((n = bs.length ∧ q = []) ∨ ∃ body, bs[n]? = some body ∧ q <+: F.frame body ∧
        q ≠ F.frame body) := by
  induction bs generalizing s with
  | nil => exact ⟨0, Nat.le_refl _, s, rfl, .inl ⟨rfl, List.prefix_nil.mp hs⟩⟩
  | cons b bs ih =>
    rw [stream_cons] at hs
    by_cases hwhole : F.frame b <+: s
    · obtain ⟨s, rfl⟩ := hwhole
      obtain ⟨n, hn, q, rfl, h⟩ := ih ((List.prefix_append_right_inj _).mp hs)
      refine ⟨n + 1, by simpa using hn, q, by simp [List.append_assoc], ?_⟩
      simpa using h
    · have hq : s <+: F.frame b := by
        rcases List.prefix_or_prefix_of_prefix hs (List.prefix_append _ _) with h | h
        · exact h
        · exact absurd h hwhole
      refine ⟨0, Nat.zero_le _, s, rfl, .inr ⟨b, rfl, hq, ?_⟩⟩
      rintro rfl
      exact hwhole List.prefix_rfl

/-- The number of whole frames is the only one of its kind. -/
theorem stream_take_prefix {n j : Nat} {q : List α} (hn : n ≤ bs.length) (hj : j ≤ bs.length)
    (hq : (n = bs.length ∧ q = []) ∨ ∃ body, bs[n]? = some body ∧ q <+: F.frame body ∧
      q ≠ F.frame body) :
    F.stream (bs.take j) <+: F.stream (bs.take n) ++ q ↔ j ≤ n := by
  constructor
  · intro h
    by_contra hlt
    rcases hq with ⟨rfl, -⟩ | ⟨body, hbody, hq, hne⟩
    · omega
    · obtain ⟨k, rfl⟩ : ∃ k, j = n + 1 + k := ⟨j - (n + 1), by omega⟩
      have hbs : bs.take (n + 1 + k) = bs.take n ++ body :: (bs.drop (n + 1)).take k := by
        rw [List.take_add, List.take_add_one, hbody]
        simp
      rw [hbs, stream, List.flatMap_append, ← stream, List.prefix_append_right_inj] at h
      have hlen := h.length_le
      simp only [List.flatMap_cons, List.length_append] at hlen
      exact hne (hq.eq_of_length (Nat.le_antisymm hq.length_le (by omega)))
  · intro h
    have : bs.take j <+: bs.take n := List.take_prefix_take_left h
    obtain ⟨more, hmore⟩ := this
    rw [← hmore, stream, stream, List.flatMap_append, List.append_assoc]
    exact List.prefix_append _ _

end Framing

end Wire
