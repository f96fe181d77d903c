import BinaryGrammar.Proofs.Structure

/-!
# Sources of known size

A source of known size says how many bytes it holds and gives none from elsewhere, in every state
that its reads lead to; a source that only ends somewhere need not say so. Whatever the decoder
fetches from such a source, and however it fetches it, lies inside. More generally, what holds of
the bytes that a source gives at an offset, and of such pieces put together, holds of all that is
fetched.
-/

set_option autoImplicit false

namespace BinaryGrammar

namespace ByteSource

variable {σ : Type}

/-- Reads do not leave the states `I` of a source. -/
def Stays (src : ByteSource σ) (I : σ → Prop) : Prop :=
  ∀ {s s' : σ} {offset count : Nat} {result : ReadResult}, I s →
    src.readAt s offset count = (result, s') → I s'

/-- In the states `I`, which are never left, a source holds `n` bytes and gives no others. -/
structure Sized (src : ByteSource σ) (n : Nat) (I : σ → Prop) : Prop where
  size : ∀ {s : σ}, I s → src.size s = some n
  stays : src.Stays I
  inside : ∀ {s s' : σ} {offset count : Nat} {bytes : Bytes}, I s →
    src.readAt s offset count = (.bytes bytes, s') → bytes.size ≠ 0 → offset + bytes.size ≤ n

/-- In the states `I`, which are never left, a source gives no bytes after the first `n`, and if it
says how many it holds, they are no more. -/
structure Ends (src : ByteSource σ) (n : Nat) (I : σ → Prop) : Prop where
  size : ∀ {s : σ} {m : Nat}, I s → src.size s = some m → m ≤ n
  stays : src.Stays I
  inside : ∀ {s s' : σ} {offset count : Nat} {bytes : Bytes}, I s →
    src.readAt s offset count = (.bytes bytes, s') → bytes.size ≠ 0 → offset + bytes.size ≤ n

theorem Sized.ends {src : ByteSource σ} {n : Nat} {I : σ → Prop} (h : src.Sized n I) :
    src.Ends n I where
  size := fun hs hm => by cases (h.size hs).symm.trans hm; exact Nat.le_refl _
  stays := h.stays
  inside := h.inside

/-- Bytes at an offset are none, or they lie inside. -/
def InsideAt (n offset : Nat) (bytes : Bytes) : Prop := bytes.size = 0 ∨ offset + bytes.size ≤ n

theorem slice_insideAt (data : Bytes) (offset count : Nat)
    (h : (Bytes.slice data offset count).size ≠ 0) :
    offset + (Bytes.slice data offset count).size ≤ data.size := by
  unfold Bytes.slice at *
  rw [Array.size_extract] at *
  omega

theorem plain_sized (data : Bytes) : plain.Sized data.size (· = data) where
  size := fun hs => by rw [hs]; rfl
  stays := fun hs hread => by cases hread; exact hs
  inside := fun hs hread hne => by
    cases hread
    rw [← hs]
    exact slice_insideAt _ _ _ hne

theorem unsized_ends (data : Bytes) : unsized.Ends data.size (· = data) where
  size := fun _ hm => by cases hm
  stays := (plain_sized data).stays
  inside := (plain_sized data).inside

/-- Bytes after others are inside if there are any. -/
theorem InsideAt.append {n offset : Nat} {got more : Bytes} (hgot : InsideAt n offset got)
    (hmore : InsideAt n (offset + got.size) more) : InsideAt n offset (got ++ more) := by
  unfold InsideAt at *
  rw [Array.size_append]
  omega

theorem InsideAt.extract {n offset k : Nat} {bytes : Bytes} (h : InsideAt n offset bytes) :
    InsideAt n offset (bytes.extract 0 k) := by
  unfold InsideAt at *
  rw [Array.size_extract]
  omega

theorem Stays.readFullFrom {src : ByteSource σ} {I : σ → Prop} (hstays : src.Stays I)
    (offset count : Nat) (got : Bytes) (s : σ) {result : Except ReadError Bytes} {s' : σ}
    (h : src.readFullFrom offset count got s = (result, s')) (hs : I s) : I s' := by
  fun_induction ByteSource.readFullFrom src offset count got s with
  | case1 got s hlt hword more s₁ hread hmore => cases h; exact hstays hs hread
  | case2 got s hlt hword more s₁ hread hmore ih => exact ih h (hstays hs hread)
  | case3 got s hlt hword reason s₁ hread ih => exact ih h (hstays hs hread)
  | case4 got s hlt hword reason s₁ hread => cases h; exact hstays hs hread
  | case5 got s hlt hover => cases h; exact hs
  | case6 got s hge => cases h; exact hs

/-- In the states `I` a source gives only bytes with the property `P` at the offset where they are
read, and pieces that follow each other have it together. -/
structure Yields (src : ByteSource σ) (I : σ → Prop) (P : Nat → Bytes → Prop) : Prop where
  stays : src.Stays I
  read : ∀ {s s' : σ} {offset count : Nat} {bytes : Bytes}, I s →
    src.readAt s offset count = (.bytes bytes, s') → bytes.size ≠ 0 → P offset bytes
  none : ∀ offset, P offset #[]
  append : ∀ {offset : Nat} {got more : Bytes}, P offset got → P (offset + got.size) more →
    P offset (got ++ more)

theorem Ends.yields {src : ByteSource σ} {n : Nat} {I : σ → Prop} (h : src.Ends n I) :
    src.Yields I (InsideAt n) where
  stays := h.stays
  read := fun hs hread hne => Or.inr (h.inside hs hread hne)
  none := fun _ => Or.inl rfl
  append := InsideAt.append

theorem Yields.readFullFrom {src : ByteSource σ} {I : σ → Prop} {P : Nat → Bytes → Prop}
    (hyields : src.Yields I P) (offset count : Nat) (got : Bytes) (s : σ) {bytes : Bytes} {s' : σ}
    (h : src.readFullFrom offset count got s = (.ok bytes, s')) (hs : I s)
    (hgot : P offset got) : P offset bytes := by
  fun_induction ByteSource.readFullFrom src offset count got s with
  | case1 got s hlt hword more s₁ hread hmore => cases h; exact hgot
  | case2 got s hlt hword more s₁ hread hmore ih =>
    -- the next read begins after the bytes that are there
    have hnext := hyields.read hs hread hmore
    exact ih h (hyields.stays hs hread) (hyields.append hgot hnext)
  | case3 got s hlt hword reason s₁ hread ih => exact ih h (hyields.stays hs hread) hgot
  | case4 got s hlt hword reason s₁ hread => cases h
  | case5 got s hlt hover => cases h
  | case6 got s hge => cases h; exact hgot

end ByteSource

namespace Decoder

open ByteSource (InsideAt)

variable {σ : Type} {d : Decoder σ} {n : Nat} {I : σ → Prop} {P : Nat → Bytes → Prop}

/-! ## What is fetched -/

/-- The source is in one of the states. -/
def InState (I : σ → Prop) (c : Cursor σ) : Prop := I c.source

theorem fetch_keeps (hstays : d.source.Stays I) (offset count : Nat) :
    Reader.Keeps (InState I) (d.fetch offset count) where
  ok := fun {c c' bytes} hc h => by
    obtain ⟨s, hread, hc'⟩ := fetch_ok h
    rw [hc']
    exact hstays.readFullFrom _ _ _ _ hread hc
  error := fun {c c' failure} hc h => by
    unfold fetch at h
    split at h
    · cases h
    · rename_i reason s hread
      cases h
      exact hstays.readFullFrom _ _ _ _ hread hc
    · rename_i s hread
      cases h
      exact hstays.readFullFrom _ _ _ _ hread hc

theorem fetch_yields (hyields : d.source.Yields I P) {offset count : Nat} {bytes : Bytes}
    {c c' : Cursor σ} (hc : I c.source) (h : d.fetch offset count c = .ok bytes c') :
    P offset bytes := by
  obtain ⟨s, hread, _⟩ := fetch_ok h
  exact hyields.readFullFrom offset count #[] _ hread hc (hyields.none _)

theorem fetchChunks_yields (hyields : d.source.Yields I P) {offset count : Nat} :
    ∀ (chunks : Nat) {got bytes : Bytes} {c c' : Cursor σ},
    d.fetchChunks offset count chunks got c = .ok bytes c' → I c.source →
    P offset got → P offset bytes
  | 0, got, bytes, c, c', h, hc, hgot => by cases h; exact hgot
  | chunks + 1, got, bytes, c, c', h, hc, hgot => by
      unfold fetchChunks at h
      split at h
      · obtain ⟨more, c₁, hmore, h⟩ := Reader.bind_ok h
        have hnext := fetch_yields hyields hc hmore
        have hc₁ := (fetch_keeps hyields.stays _ _).ok hc hmore
        split at h
        · cases h
          exact hyields.append hgot hnext
        · exact fetchChunks_yields hyields chunks h hc₁ (hyields.append hgot hnext)
      · cases h
        exact hgot

/-- What a scan consumes lies inside, if it is anything. -/
theorem scan_inside (hyields : d.source.Yields I (InsideAt n)) {terminator : Bytes}
    {offset cap : Nat} : ∀ (windows : Nat) {text : Bytes} {found : Scan} {c c' : Cursor σ},
    d.scan terminator offset cap windows text c = .ok found c' → I c.source →
    InsideAt n offset text → found.consumed = 0 ∨ offset + found.consumed ≤ n
  | 0, text, found, c, c', h, hc, htext => by cases h; exact htext
  | windows + 1, text, found, c, c', h, hc, htext => by
      unfold scan at h
      dsimp only at h
      obtain ⟨_, h⟩ := Reader.require_bind h
      split at h
      · cases h
        exact htext
      · obtain ⟨got, c₁, hgot, h⟩ := Reader.bind_ok h
        have hin := fetch_yields hyields hc hgot
        have hc₁ := (fetch_keeps hyields.stays _ _).ok hc hgot
        cases hfind : got.findUnit? terminator.size (got.size / terminator.size)
            (· == terminator) with
        | some i =>
            simp only [hfind] at h
            obtain ⟨_, h⟩ := Reader.requireWord_bind h
            cases h
            have hunits := findUnit?_le hfind
            unfold InsideAt at htext hin
            dsimp only
            omega
        | none =>
            simp only [hfind] at h
            obtain ⟨_, h⟩ := Reader.requireWord_bind h
            have hnext :=
              htext.append (hin.extract (k := got.size / terminator.size * terminator.size))
            split at h
            · cases h
              exact hnext
            · exact scan_inside hyields windows h hc₁ hnext

end Decoder

end BinaryGrammar
