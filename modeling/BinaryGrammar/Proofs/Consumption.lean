import BinaryGrammar.Proofs.Blame
import BinaryGrammar.Proofs.FixedLength

/-!
# Elements that consume input

The search for recursion takes an element to consume input when its attributes say that it has to
occur and to cover something. Here this is compared with what reading does: an element that counts
as consuming moves the cursor, whenever it is read.

The attributes alone do not tell everything. The greatest number of instances, the bound of a
terminated text and the length of a structure may be formulas, and these may come out as zero; a
structure of length zero does not read its fields, however much they consume. What has to hold
besides is `Substantial`: where decoding comes to such a formula, it does not come out as zero.
Decoding some data from one place comes to the elements that it `Meets` and to the states that it
`Traverses`, and to no others.
-/

set_option autoImplicit false

namespace BinaryGrammar

namespace Document

variable {doc : Document} {i : Nat}

/-! ## What counts as consuming -/

theorem isPositive_eq {length : Option Expression} (h : isPositive length = true) :
    ∃ n, length = some (.constant n) ∧ 0 < n := by
  unfold isPositive at h
  cases length with
  | none => cases h
  | some e =>
      cases e with
      | formula text => cases h
      | constant n => exact ⟨n, rfl, of_decide_eq_true h⟩

/-- An element that consumes has to occur at least once. -/
theorem consumes_repeatMin {k : Nat} (h : doc.consumes k i = true) :
    ∃ n, doc.repeatMin i = .constant n ∧ 1 ≤ n := by
  cases k with
  | zero => cases h
  | succ k =>
      unfold consumes at h
      cases hmin : doc.repeatMin i with
      | formula text =>
          simp only [hmin, Expression.constant?, Bool.not_false, if_true] at h
          cases h
      | constant n =>
          by_cases hn : 1 ≤ n
          · exact ⟨n, rfl, hn⟩
          · simp only [hmin, Expression.constant?, hn, decide_false, Bool.not_false, if_true] at h
            cases h

/-- A run of bytes that consumes has a length above zero. -/
theorem consumes_binary {k : Nat} {b : BinaryBody} (hbody : (doc.element i).body = .binary b)
    (h : doc.consumes k i = true) : isPositive (doc.length i) = true := by
  obtain ⟨n, hmin, hn⟩ := consumes_repeatMin h
  cases k with
  | zero => cases h
  | succ k => simpa [consumes, hmin, Expression.constant?, hn, hbody] using h

/-- So has a text of fixed length. -/
theorem consumes_string {k : Nat} {b : StringBody} (hbody : (doc.element i).body = .string b)
    (htype : doc.stringType i = .fixedLength) (h : doc.consumes k i = true) :
    isPositive (doc.length i) = true := by
  obtain ⟨n, hmin, hn⟩ := consumes_repeatMin h
  cases k with
  | zero => cases h
  | succ k => simpa [consumes, hmin, Expression.constant?, hn, hbody, htype] using h

/-- References to a grammar, fields of scripts, scripts and disabled references do not count as
consuming. -/
theorem consumes_kind {k : Nat} (h : doc.consumes k i = true) :
    match (doc.element i).body with
    | .structRef r => r.disabled ≠ some true
    | .grammarRef _ => False
    | .custom _ => False
    | .script _ => False
    | .padding => False
    | _ => True := by
  obtain ⟨n, hmin, hn⟩ := consumes_repeatMin h
  cases k with
  | zero => cases h
  | succ k =>
      unfold consumes at h
      simp only [hmin, Expression.constant?, hn, decide_true, Bool.not_true, Bool.false_eq_true,
        if_false] at h
      cases hbody : (doc.element i).body with
      | structRef r =>
          simp only [hbody] at h ⊢
          intro hdisabled
          rw [if_pos hdisabled] at h
          cases h
      | number b => trivial
      | offset b => trivial
      | binary b => trivial
      | string b => trivial
      | struct b => trivial
      | _ =>
          simp only [hbody] at h
          cases h

/-- Only elements that are there consume. -/
theorem consumes_lt_size {k : Nat} (h : doc.consumes k i = true) : i < doc.elements.size := by
  refine Nat.lt_of_not_le fun hle => ?_
  have hkind := consumes_kind h
  unfold element at hkind
  rw [Array.getD_eq_getD_getElem?, Array.getElem?_eq_none hle] at hkind
  exact hkind

/-- A structure that consumes, or one that an element refers to, has a length or a field that
consumes. -/
theorem consumes_structure {k s : Nat} {body : StructBody}
    (hs : doc.structureOf? i = some (s, body)) (h : doc.consumes k i = true) :
    doc.length s ≠ none ∨ ∃ c ∈ body.elements, ∃ k, doc.consumes k c = true := by
  obtain ⟨n, hmin, hn⟩ := consumes_repeatMin h
  -- a reference has the length of the structure that it leads to
  have hsome (hpositive : isPositive (doc.length i) = true) : doc.length s ≠ none := by
    obtain ⟨n, hn, _⟩ := isPositive_eq hpositive
    rw [← length_structureOf hs, hn]
    exact nofun
  cases k with
  | zero => cases h
  | succ k =>
      have hsplit (hor : (isPositive (doc.length i) || body.elements.any (doc.consumes k)) = true) :
          doc.length s ≠ none ∨ ∃ c ∈ body.elements, ∃ k, doc.consumes k c = true := by
        rcases Bool.or_eq_true_iff.mp hor with hpositive | hchildren
        · exact Or.inl (hsome hpositive)
        · obtain ⟨c, hc, hconsumes⟩ := List.any_eq_true.mp hchildren
          exact Or.inr ⟨c, hc, k, hconsumes⟩
      unfold consumes at h
      unfold structureOf? at hs
      simp only [hmin, Expression.constant?, hn, decide_true, Bool.not_true, Bool.false_eq_true,
        if_false] at h
      cases hbody : (doc.element i).body with
      | struct b =>
          simp only [hbody] at h hs
          cases hs
          exact hsplit h
      | structRef r =>
          simp only [hbody] at h hs
          split at hs
          · cases hs
          · rename_i hdisabled
            obtain ⟨t, ht, hstruct⟩ := Option.bind_eq_some_iff.mp hs
            obtain ⟨rfl, hbody'⟩ := structAt?_eq_some hstruct
            have hchildren : (doc.element s).children = body.elements := by
              unfold Element.children
              rw [hbody']
            rw [if_neg hdisabled] at h
            simp only [ht, hchildren] at h
            exact hsplit h
      | grammarRef g =>
          simp only [hbody] at h
          cases h
      | _ =>
          simp only [hbody] at hs
          cases hs

end Document

namespace Decoder

variable {σ α : Type} {d : Decoder σ} {ctx outer : Context} {i : Nat} {c c' c₀ : Cursor σ}

/-! ## What decoding comes to -/

/-- How far the reading of a structure has come. -/
inductive Stage where
  /-- Some elements have still to have their turns. -/
  | between (rest : List Nat)
  /-- An element has its turn before those. Of it, `count` instances have been read, at least
  `least` are required and `allowed` more are allowed. -/
  | turn (child : Nat) (least : Int) (allowed count : Nat) (rest : List Nat)

/-- How far the reading of a structure has come after an attempt. -/
def Stage.after (child : Nat) (least : Int) (allowed count : Nat) (rest : List Nat) :
    Attempt → Stage
  | .more => .turn child least allowed (count + 1) rest
  | .done => .between rest

mutual

/-- The elements that decoding from a cursor comes to: with so many levels of nesting left, an
element is read in given surroundings where the cursor is. -/
inductive Meets (d : Decoder σ) (c₀ : Cursor σ) : Nat → Context → Nat → Cursor σ → Prop where
  /-- The start structure is read first. -/
  | start {i : Nat} : d.document.start = some i → Meets d c₀ depthLimit {} i c₀
  /-- In its turn an element is read as long as more instances are allowed and there is room. -/
  | field {levels label start child allowed count : Nat} {ctx : Context} {least : Int}
      {rest : List Nat} {p : Progress σ} :
      Traverses d c₀ levels ctx label start (.turn child least (allowed + 1) count rest) p →
      p.exhausted ctx = false → Meets d c₀ levels (p.context ctx) child p.cursor

/-- The states of structures that decoding from a cursor comes through: for an element that was read
in given surroundings from a bit position on, a structure has come so far, with so many levels left
for its fields. -/
inductive Traverses (d : Decoder σ) (c₀ : Cursor σ) :
    Nat → Context → Nat → Nat → Stage → Progress σ → Prop where
  /-- A structure is opened, and its end is settled if it can be. -/
  | opened {levels label i : Nat} {ctx : Context} {body : StructBody} {c : Cursor σ}
      {p : Progress σ} :
      Meets d c₀ (levels + 1) ctx label c → d.document.structureOf? label = some (i, body) →
      d.document.order i = .fixed → c.pos % 8 = 0 →
      d.settle ctx i c.pos false { cursor := c } = .ok () p →
      Traverses d c₀ levels ctx label c.pos (.between body.elements) p
  /-- The next element has its turn if there is room. -/
  | begun {levels label start child : Nat} {ctx : Context} {least most : Int} {rest : List Nat}
      {p : Progress σ} :
      Traverses d c₀ levels ctx label start (.between (child :: rest)) p → p.exhausted ctx = false →
      d.evaluate (p.context ctx) (d.document.repeatMin child) = .ok least →
      d.evaluate (p.context ctx) (d.document.repeatMax child) = .ok most →
      Traverses d c₀ levels ctx label start (.turn child least (allowedInstances most) 0 rest) p
  /-- One more instance has been tried. -/
  | tried {levels label i start child allowed count : Nat} {ctx : Context} {least : Int}
      {rest : List Nat} {body : StructBody} {a : Attempt} {p p' : Progress σ} :
      Traverses d c₀ levels ctx label start (.turn child least (allowed + 1) count rest) p →
      d.document.structureOf? label = some (i, body) → p.exhausted ctx = false →
      d.attempt (d.readElement levels) ctx i start child (least ≤ count) p = .ok a p' →
      Traverses d c₀ levels ctx label start (.after child least allowed count rest a) p'
  /-- A turn ends when no more instances are allowed, -/
  | full {levels label start child count : Nat} {ctx : Context} {least : Int} {rest : List Nat}
      {p : Progress σ} :
      Traverses d c₀ levels ctx label start (.turn child least 0 count rest) p →
      Traverses d c₀ levels ctx label start (.between rest) p
  /-- or when there is no room for them. -/
  | exhausted {levels label start child allowed count : Nat} {ctx : Context} {least : Int}
      {rest : List Nat} {p : Progress σ} :
      Traverses d c₀ levels ctx label start (.turn child least allowed count rest) p →
      p.exhausted ctx = true → Traverses d c₀ levels ctx label start (.between rest) p

end

/-- What is left to the data of an element that counts as consuming does not come out as zero where
decoding from a cursor comes to it: how often it occurs at most when it has its turn, the bound of a
terminated text where that is read, and the length of a structure while that is read. -/
structure Substantial (d : Decoder σ) (c₀ : Cursor σ) (i : Nat) : Prop where
  most : ∀ {levels label start : Nat} {ctx : Context} {rest : List Nat} {p : Progress σ},
    d.Traverses c₀ levels ctx label start (.between (i :: rest)) p → p.exhausted ctx = false →
    d.evaluate (p.context ctx) (d.document.repeatMax i) ≠ .ok 0
  bound : ∀ {levels : Nat} {ctx : Context} {c : Cursor σ} {body : StringBody},
    d.Meets c₀ levels ctx i c → (d.document.element i).body = .string body →
    d.document.stringType i ≠ .pascal → d.lengthBytes? ctx i ≠ .ok (some 0)
  extent : ∀ {levels start s : Nat} {ctx : Context} {stage : Stage} {p : Progress σ}
    {body : StructBody}, d.Traverses c₀ levels ctx i start stage p →
    d.document.structureOf? i = some (s, body) → d.extentBits? (p.context ctx) s ≠ .ok (some 0)

/-- A reader that moves the cursor whenever it succeeds. -/
def Moves (y : Reader σ α) : Prop :=
  ∀ {c c' : Cursor σ} {a : α}, y c = .ok a c' → c.pos < c'.pos

/-! ## Lengths above zero -/

theorem bitsOf_pos {k : Int} {bits : Nat} (hk : 0 < k) (h : d.bitsOf i k = .ok bits) :
    0 < bits := by
  have hbits := bitsOf_ok h
  cases hunit : d.document.lengthUnit i with
  | bit =>
      rw [hunit, LengthUnit.bits] at hbits
      omega
  | byte =>
      rw [hunit, LengthUnit.bits] at hbits
      omega

theorem lengthBytes?_pos {count : Nat}
    (hlength : Document.isPositive (d.document.length i) = true)
    (h : d.lengthBytes? ctx i = .ok (some count)) : 0 < count := by
  obtain ⟨k, hk, hpos⟩ := Document.isPositive_eq hlength
  unfold lengthBytes? lengthBits? at h
  simp only [hk] at h
  obtain ⟨bits, hbits, h⟩ := Reader.except_bind_ok h
  obtain ⟨length, hevaluate, hbits⟩ := Reader.except_bind_ok hbits
  obtain ⟨b, hb, hbits⟩ := Reader.except_bind_ok hbits
  cases hbits
  rw [evaluate_constant] at hevaluate
  cases hevaluate
  obtain ⟨whole, hwhole, h⟩ := Reader.except_bind_ok h
  cases h
  have hpos := bitsOf_pos hpos hb
  obtain ⟨rfl, hmod⟩ := wholeBytes_ok hwhole
  omega

theorem lengthBytes_pos {count : Nat} (hlength : Document.isPositive (d.document.length i) = true)
    (h : d.lengthBytes ctx i = .ok count) : 0 < count := by
  unfold lengthBytes at h
  obtain ⟨bytes, hbytes, h⟩ := Reader.except_bind_ok h
  cases bytes with
  | none => cases h
  | some bytes =>
      cases h
      exact lengthBytes?_pos hlength hbytes

/-- Constants other than zero do not come out as zero, if nothing is added to a length. -/
theorem Substantial.of_constants {m : Int} (hmost : d.document.repeatMax i = .constant m)
    (hm : m ≠ 0)
    (hlength : d.document.length i = none ∨ Document.isPositive (d.document.length i) = true)
    (hoffset :
      (d.document.structureOf? i).bind (fun opens => d.document.lengthOffset opens.1) = none) :
    d.Substantial c₀ i where
  most := fun _ _ hzero => by
    rw [hmost, evaluate_constant] at hzero
    cases hzero
    exact hm rfl
  bound := fun _ _ _ hzero => by
    rcases hlength with hnone | hpositive
    · unfold lengthBytes? lengthBits? at hzero
      simp only [hnone] at hzero
      cases hzero
    · exact absurd (lengthBytes?_pos hpositive hzero) (Nat.lt_irrefl 0)
  extent := fun _ hs hzero => by
    rw [Document.length_structureOf hs] at hlength
    unfold extentBits? total at hzero
    rcases hlength with hnone | hpositive
    · simp only [hnone] at hzero
      cases hzero
    · obtain ⟨k, hk, hpos⟩ := Document.isPositive_eq hpositive
      rw [hs, Option.bind_some] at hoffset
      simp only [hk, hoffset] at hzero
      obtain ⟨length, hevaluate, hzero⟩ := Reader.except_bind_ok hzero
      rw [evaluate_constant] at hevaluate
      cases hevaluate
      obtain ⟨total, htotal, hzero⟩ := Reader.except_bind_ok hzero
      cases htotal
      obtain ⟨bits, hbits, hzero⟩ := Reader.except_bind_ok hzero
      obtain ⟨whole, hwhole, hzero⟩ := Reader.except_bind_ok hzero
      cases hzero
      have hlt := bitsOf_pos hpos hbits
      have heq := (wholeBytes_ok hwhole).1
      omega

/-! ## Taking data -/

theorem take_moves {count : Nat} (hcount : 0 < count) : Moves (d.take ctx i count) := by
  intro c c' bytes htake
  obtain ⟨_, _, c₁, _, _, _, hc'⟩ := take_ok htake
  rw [hc']
  dsimp only
  omega

theorem takeBits_moves {count : Nat} (hcount : 0 < count) : Moves (d.takeBits ctx count) := by
  intro c c' k htake
  obtain ⟨_, _, bytes, c₁, _, _, hc', _⟩ := takeBits_ok htake
  rw [hc']
  dsimp only
  omega

theorem takeInteger_moves (i bits : Nat) (big : Bool) : Moves (d.takeInteger ctx i bits big) := by
  intro c c' k htake
  unfold takeInteger at htake
  obtain ⟨hbits, htake⟩ := Reader.require_bind htake
  rw [Reader.pos_bind] at htake
  split at htake
  · rename_i hwhole
    obtain ⟨bytes, c₁, hbytes, htake⟩ := Reader.bind_ok htake
    cases htake
    exact take_moves (by omega) hbytes
  · exact takeBits_moves hbits.1 htake

theorem takeNumber_moves (i bits : Nat) (big : Bool) : Moves (d.takeNumber ctx i bits big) := by
  intro c c' payload htake
  unfold takeNumber at htake
  cases htype : d.document.numberType i with
  | integer =>
      simp only [htype] at htake
      obtain ⟨raw, c₁, hraw, htake⟩ := Reader.bind_ok htake
      cases htake
      exact takeInteger_moves i bits big hraw
  | float =>
      simp only [htype] at htake
      obtain ⟨hbits, htake⟩ := Reader.require_bind htake
      obtain ⟨bytes, c₁, hbytes, htake⟩ := Reader.bind_ok htake
      cases htake
      exact take_moves (by omega) hbytes

/-- Without a terminator there has to be something, unless the bound is zero. -/
theorem takeTerminated_moves {terminator : Bytes} {max : Option Nat} (hmax : max ≠ some 0) :
    Moves (d.takeTerminated ctx terminator max) := by
  intro c c' text htake
  unfold takeTerminated at htake
  rw [Reader.pos_bind] at htake
  obtain ⟨found, c₁, _, htake⟩ := Reader.bind_ok htake
  obtain ⟨hfound, htake⟩ := Reader.require_bind htake
  obtain ⟨_, htake⟩ := Reader.requireWord_bind htake
  rw [Reader.moveTo_bind] at htake
  cases htake
  have hsome : found.consumed ≠ 0 := hfound.resolve_right hmax
  dsimp only
  omega

/-! ## Fields -/

theorem readNumber_moves (i : Nat) (body : NumberBody) : Moves (d.readNumber ctx i body) := by
  intro c c' v hread
  obtain ⟨bits, big, payload, _, htake, _⟩ := readNumber_taken hread
  exact takeNumber_moves i bits big htake

theorem readOffset_moves (i : Nat) : Moves (d.readOffset ctx i) := by
  intro c c' v hread
  obtain ⟨bits, big, raw, _, htake, _⟩ := readOffset_taken hread
  exact takeInteger_moves i bits big htake

theorem readBinary_moves (hlength : Document.isPositive (d.document.length i) = true)
    (body : BinaryBody) : Moves (d.readBinary ctx i body) := by
  intro c c' v hread
  unfold readBinary at hread
  rw [Reader.pos_bind] at hread
  obtain ⟨count, hcount, hread⟩ := Reader.ofExcept_bind hread
  obtain ⟨bytes, c₁, htake, hread⟩ := Reader.bind_ok hread
  obtain ⟨_, rfl, _⟩ := finish_match_ok hread
  exact take_moves (lengthBytes_pos hlength hcount) htake

theorem takeDelimited_moves (hbound : d.lengthBytes? ctx i ≠ .ok (some 0)) (terminator : Bytes) :
    Moves (d.takeDelimited ctx i terminator) := by
  intro c c' text htake
  unfold takeDelimited at htake
  obtain ⟨max, hmax, htake⟩ := Reader.ofExcept_bind htake
  refine takeTerminated_moves ?_ htake
  rintro rfl
  exact hbound hmax

/-- A text moves the cursor by its length, by the number of its bytes, or by its terminator. -/
theorem takeString_moves (body : StringBody) (encoding : Option Text.Encoding)
    (hlength : d.document.stringType i = .fixedLength →
      Document.isPositive (d.document.length i) = true)
    (hbound : d.document.stringType i ≠ .pascal → d.lengthBytes? ctx i ≠ .ok (some 0)) :
    Moves (d.takeString ctx i body encoding) := by
  intro c c' bytes htake
  unfold takeString at htake
  cases htype : d.document.stringType i with
  | fixedLength =>
      simp only [htype] at htake
      obtain ⟨count, hcount, htake⟩ := Reader.ofExcept_bind htake
      obtain ⟨got, c₁, hgot, htake⟩ := Reader.bind_ok htake
      cases htake
      exact take_moves (lengthBytes_pos (hlength htype) hcount) hgot
  | pascal =>
      simp only [htype] at htake
      obtain ⟨width, _, htake⟩ := Reader.ofExcept_bind htake
      obtain ⟨hwidth, htake⟩ := Reader.require_bind htake
      obtain ⟨big, _, htake⟩ := Reader.ofExcept_bind htake
      obtain ⟨before, c₁, hbefore, htake⟩ := Reader.bind_ok htake
      -- the number of bytes stands in the data as well, so the text itself may be empty
      have hfirst := take_moves hwidth.1 hbefore
      obtain ⟨_, _, c₂, _, _, _, rfl⟩ := take_ok htake
      dsimp only
      omega
  | zeroTerminated =>
      simp only [htype] at htake
      exact takeDelimited_moves (hbound (by rw [htype]; exact nofun)) _ htake
  | delimiterTerminated =>
      simp only [htype] at htake
      exact takeDelimited_moves (hbound (by rw [htype]; exact nofun)) _ htake

theorem readString_moves (body : StringBody)
    (hlength : d.document.stringType i = .fixedLength →
      Document.isPositive (d.document.length i) = true)
    (hbound : d.document.stringType i ≠ .pascal → d.lengthBytes? ctx i ≠ .ok (some 0)) :
    Moves (d.readString ctx i body) := by
  intro c c' v hread
  unfold readString at hread
  obtain ⟨_, hread⟩ := Reader.ensureAligned_bind hread
  rw [Reader.pos_bind] at hread
  obtain ⟨bytes, c₁, htake, hread⟩ := Reader.bind_ok hread
  obtain ⟨text, _, hread⟩ := Reader.ofExcept_bind hread
  obtain ⟨_, rfl, _⟩ := finish_match_ok hread
  exact takeString_moves body _ hlength hbound htake

/-- A field without fields of its own that counts as consuming. -/
theorem readField_moves {read : ElementReader σ} {k : Nat}
    (hconsumes : d.document.consumes k i = true)
    (hbound : ∀ {body : StringBody}, (d.document.element i).body = .string body →
      d.document.stringType i ≠ .pascal → d.lengthBytes? ctx i ≠ .ok (some 0))
    (hfield : d.document.structureOf? i = none) : Moves (d.readBody read ctx i) := by
  intro c c' v hread
  unfold readBody at hread
  cases hbody : (d.document.element i).body with
  | number body =>
      simp only [hbody] at hread
      exact readNumber_moves i body hread
  | offset body =>
      simp only [hbody] at hread
      exact readOffset_moves i hread
  | binary body =>
      simp only [hbody] at hread
      exact readBinary_moves (Document.consumes_binary hbody hconsumes) body hread
  | string body =>
      simp only [hbody] at hread
      exact readString_moves body (fun htype => Document.consumes_string hbody htype hconsumes)
        (hbound hbody) hread
  | struct body =>
      unfold Document.structureOf? at hfield
      simp only [hbody] at hfield
      cases hfield
  | structRef r =>
      -- the reference is in use, so that it has to lead to a structure
      have hkind := Document.consumes_kind hconsumes
      unfold Document.structureOf? at hfield
      simp only [hbody] at hkind hfield hread
      rw [if_neg hkind] at hfield hread
      obtain ⟨s, b, hs, _⟩ := readTarget_ok hread
      rw [hfield] at hs
      cases hs
  | _ =>
      have hkind := Document.consumes_kind hconsumes
      rw [hbody] at hkind
      exact hkind.elim

/-! ## Structures -/

/-- The end of a structure that is being read is not where it began, and there is one if the
structure has a length. -/
def Beyond (doc : Document) (i start : Nat) : Extent → Prop
  | .pending => True
  | .unbounded => doc.length i = none
  | .fixed stop => start < stop

section

variable {levels start child : Nat} {p p' : Progress σ}

theorem Settles.beyond {last : Bool} (hextent : d.extentBits? (p.context outer) i ≠ .ok (some 0))
    (h : Settles d outer i start last p p') (hp : Beyond d.document i start p.extent) :
    Beyond d.document i start p'.extent := by
  cases h with
  | known => exact hp
  | waits => exact hp
  | unbounded _ hbits => exact extentBits?_none hbits
  | @fixed length _ hbits _ _ =>
      have hne : length ≠ 0 := by
        rintro rfl
        exact hextent hbits
      change start < start + length
      omega

/-- Formulas look at the frames only, and settling the end leaves these as they are. -/
theorem Settles.extentBits?_eq {last : Bool} (h : Settles d outer i start last p p') :
    d.extentBits? (p'.context outer) i = d.extentBits? (p.context outer) i := by
  have hframes : (p'.context outer).frames = (p.context outer).frames := by
    unfold Progress.context
    rw [h.frame]
  have hscope : (p'.context outer).scope d.document = (p.context outer).scope d.document := by
    funext path
    unfold Context.scope Context.follow? Context.find?
    rw [hframes]
  have hevaluate (e : Expression) :
      d.evaluate (p'.context outer) e = d.evaluate (p.context outer) e := by
    unfold evaluate
    rw [hscope]
  unfold extentBits? total
  simp only [hevaluate]

/-- Where a structure begins it is not exhausted, if what encloses it is not. -/
theorem Beyond.room (h : Beyond d.document i start p.extent) (hpos : p.cursor.pos = start)
    (hroom : outer.exhausted start = false) : p.exhausted outer = false := by
  unfold Progress.exhausted Context.exhausted
  unfold Context.exhausted at hroom
  rw [hpos]
  cases hext : p.extent with
  | fixed stop =>
      rw [hext] at h
      have hlt : start < stop := h
      rw [Progress.context_limit_fixed hext]
      cases hlimit : outer.limit with
      | none =>
          dsimp only
          exact decide_eq_false (by omega)
      | some limit =>
          rw [hlimit] at hroom
          have hlimit := of_decide_eq_false hroom
          dsimp only
          exact decide_eq_false (by omega)
  | pending =>
      rw [Progress.context_limit_open (by intro stop; rw [hext]; exact nofun)]
      exact hroom
  | unbounded =>
      rw [Progress.context_limit_open (by intro stop; rw [hext]; exact nofun)]
      exact hroom

/-- An instance does not move the cursor back. -/
theorem instance_forward {v : Value}
    (hread : d.readElement levels (p.context outer) child p.cursor = .ok v c)
    (hsettles : Settles d outer i start false (Progress.push { p with cursor := c } d.document v)
      p') : p.cursor.pos ≤ p'.cursor.pos := by
  have hle := (readElement_spans levels hread).le
  have hcursor : p'.cursor = c := hsettles.cursor
  rw [hcursor]
  exact hle

theorem attempt_forward {enough : Bool} {a : Attempt}
    (h : d.attempt (d.readElement levels) outer i start child enough p = .ok a p') :
    p.cursor.pos ≤ p'.cursor.pos := by
  rcases attempt_ok h with ⟨v, c, hread, hsettles, _⟩ | ⟨_, _, f, c, _, rfl⟩
  · exact instance_forward hread hsettles
  · exact Nat.le_refl _

theorem readInstances_forward {least : Int} {allowed count : Nat} {u : Unit}
    (h : d.readInstances (d.readElement levels) outer i start child least allowed count p =
      .ok u p') : p.cursor.pos ≤ p'.cursor.pos := by
  obtain ⟨xs, hrepeated, _⟩ := readInstances_ok _ _ h
  refine hrepeated.invariant (P := fun q => p.cursor.pos ≤ q.cursor.pos) ?_ ?_ (Nat.le_refl _)
  · intro q q' v c hq _ hread hsettles
    exact Nat.le_trans hq (instance_forward hread hsettles)
  · -- a failed attempt puts the cursor back to where it began
    intro q f c hq _
    exact hq

theorem readElements_forward {children : List Nat} {u : Unit}
    (h : d.readElements (d.readElement levels) outer i start children p = .ok u p') :
    p.cursor.pos ≤ p'.cursor.pos := by
  obtain ⟨ts, hturns, _⟩ := readElements_ok _ h
  refine hturns.invariant (P := fun q => p.cursor.pos ≤ q.cursor.pos) ?_ ?_ (Nat.le_refl _)
  · intro q q' j v c hq _ hread hsettles
    exact Nat.le_trans hq (instance_forward hread hsettles)
  · intro q j f c hq _
    exact hq

/-! ## Structures that decoding comes through -/

variable {label : Nat} {least most : Int} {rest : List Nat} {body : StructBody}
  (hs : d.document.structureOf? label = some (i, body))
include hs

theorem Traverses.attempt_beyond {allowed count : Nat} {a : Attempt}
    (hextent : ∀ {stage : Stage} {q : Progress σ}, d.Traverses c₀ levels outer label start stage q →
      d.extentBits? (q.context outer) i ≠ .ok (some 0))
    (h : d.Traverses c₀ levels outer label start (.turn child least (allowed + 1) count rest) p)
    (hroom : p.exhausted outer = false)
    (hattempt : d.attempt (d.readElement levels) outer i start child (least ≤ count) p = .ok a p')
    (hp : Beyond d.document i start p.extent) : Beyond d.document i start p'.extent := by
  have hnext := hextent (h.tried hs hroom hattempt)
  rcases attempt_ok hattempt with ⟨v, c, _, hsettles, _⟩ | ⟨_, _, f, c, _, rfl⟩
  · rw [hsettles.extentBits?_eq] at hnext
    exact hsettles.beyond hnext hp
  · exact hp

/-- After its instances the turn of an element ends, and what every attempt keeps still holds. -/
theorem Traverses.readInstances {P : Progress σ → Prop}
    (step : ∀ {allowed count : Nat} {a : Attempt} {p p' : Progress σ},
      d.Traverses c₀ levels outer label start (.turn child least (allowed + 1) count rest) p →
      p.exhausted outer = false →
      d.attempt (d.readElement levels) outer i start child (least ≤ count) p = .ok a p' →
      P p → P p') :
    ∀ (allowed count : Nat) {p p' : Progress σ} {u : Unit},
    d.Traverses c₀ levels outer label start (.turn child least allowed count rest) p → P p →
    d.readInstances (d.readElement levels) outer i start child least allowed count p = .ok u p' →
    d.Traverses c₀ levels outer label start (.between rest) p' ∧ P p'
  | 0, _, p, p', _, h, hp, hok => by
      cases hok
      exact ⟨h.full, hp⟩
  | allowed + 1, count, p, p', _, h, hp, hok => by
      by_cases hroom : p.exhausted outer = true
      · rw [readInstances_exhausted hroom] at hok
        cases hok
        exact ⟨h.exhausted hroom, hp⟩
      · rw [readInstances_succ hroom] at hok
        rw [Bool.not_eq_true] at hroom
        obtain ⟨a, p₁, hattempt, hok⟩ := Reader.bind_ok hok
        have h₁ := h.tried hs hroom hattempt
        have hp₁ := step h hroom hattempt hp
        cases a with
        | done =>
            cases hok
            exact ⟨h₁, hp₁⟩
        | more =>
            dsimp only at hok
            split at hok
            · exact Traverses.readInstances step allowed (count + 1) h₁ hp₁ hok
            · cases hok

/-- Then the end of the structure is still not where it began. -/
theorem Traverses.turn_beyond {allowed : Nat} {u : Unit}
    (hextent : ∀ {stage : Stage} {q : Progress σ},
      d.Traverses c₀ levels outer label start stage q →
      d.extentBits? (q.context outer) i ≠ .ok (some 0))
    (h : d.Traverses c₀ levels outer label start (.turn child least allowed 0 rest) p)
    (hp : Beyond d.document i start p.extent)
    (hok : d.readInstances (d.readElement levels) outer i start child least allowed 0 p =
      .ok u p') :
    d.Traverses c₀ levels outer label start (.between rest) p' ∧
      Beyond d.document i start p'.extent :=
  Traverses.readInstances hs (P := fun q => Beyond d.document i start q.extent)
    (fun hq hroom hattempt hbeyond => hq.attempt_beyond hs hextent hroom hattempt hbeyond) _ 0 h hp
    hok

omit hs in
/-- The turn of an element that counts as consuming moves the cursor, if its instances do. -/
theorem Traverses.turn_moves {k : Nat} {u : Unit} (hconsumes : d.document.consumes k child = true)
    (h : d.Traverses c₀ levels outer label start (.between (child :: rest)) p)
    (hsubstantial : d.Substantial c₀ child)
    (hmoves : ∀ {ctx : Context} {c c' : Cursor σ} {v : Value}, d.Meets c₀ levels ctx child c →
      ctx.exhausted c.pos = false → d.readElement levels ctx child c = .ok v c' → c.pos < c'.pos)
    (hroom : p.exhausted outer = false)
    (hleast : d.evaluate (p.context outer) (d.document.repeatMin child) = .ok least)
    (hmost : d.evaluate (p.context outer) (d.document.repeatMax child) = .ok most)
    (hok : d.readInstances (d.readElement levels) outer i start child least
      (allowedInstances most) 0 p = .ok u p') : p.cursor.pos < p'.cursor.pos := by
  -- at least one instance is required, and at least one is allowed
  have hne : most ≠ 0 := by
    rintro rfl
    exact hsubstantial.most h hroom hmost
  have hrequired : 1 ≤ least := by
    obtain ⟨m, hmin, hm⟩ := Document.consumes_repeatMin hconsumes
    rw [hmin, evaluate_constant] at hleast
    cases hleast
    exact hm
  have hallowed : allowedInstances most ≠ 0 := by
    unfold allowedInstances
    split
    · decide
    · omega
  have hturn := h.begun hroom hleast hmost
  obtain ⟨more, hmore⟩ := Nat.exists_eq_succ_of_ne_zero hallowed
  rw [hmore] at hturn hok
  rw [readInstances_succ (Bool.eq_false_iff.mp hroom)] at hok
  obtain ⟨a, p₁, hattempt, hok⟩ := Reader.bind_ok hok
  have hle : p₁.cursor.pos ≤ p'.cursor.pos := by
    cases a with
    | done =>
        cases hok
        exact Nat.le_refl _
    | more =>
        dsimp only at hok
        split at hok
        · exact readInstances_forward hok
        · cases hok
  rcases attempt_ok hattempt with ⟨v, c, hread, hsettles, _⟩ | ⟨_, henough, _⟩
  · have hlt := hmoves (.field hturn hroom) hroom hread
    have hcursor : p₁.cursor = c := hsettles.cursor
    rw [hcursor] at hle
    omega
  · -- without an instance there are not enough
    have := of_decide_eq_true henough
    omega

/-- After its elements the end of the structure is still not where it began. -/
theorem Traverses.readElements
    (hextent : ∀ {stage : Stage} {q : Progress σ}, d.Traverses c₀ levels outer label start stage q →
      d.extentBits? (q.context outer) i ≠ .ok (some 0)) :
    ∀ (children : List Nat) {p p' : Progress σ} {u : Unit},
    d.Traverses c₀ levels outer label start (.between children) p →
    Beyond d.document i start p.extent →
    d.readElements (d.readElement levels) outer i start children p = .ok u p' →
    (∃ rest, d.Traverses c₀ levels outer label start (.between rest) p') ∧
      Beyond d.document i start p'.extent
  | [], _, _, _, h, hp, hok => by
      cases hok
      exact ⟨⟨[], h⟩, hp⟩
  | child :: rest, p, p', _, h, hp, hok => by
      rcases readElements_cons_ok hok with
        ⟨_, rfl⟩ | ⟨least, most, p₁, hroom, hleast, hmost, h₁, h₂⟩
      · exact ⟨⟨_, h⟩, hp⟩
      · obtain ⟨hrest, hp₁⟩ := (h.begun hroom hleast hmost).turn_beyond hs hextent hp h₁
        exact Traverses.readElements hextent rest hrest hp₁ h₂

/-- A structure with an element that counts as consuming moves the cursor, if the instances of that
element do. -/
theorem Traverses.readElements_moves {k b : Nat}
    (hextent : ∀ {stage : Stage} {q : Progress σ}, d.Traverses c₀ levels outer label start stage q →
      d.extentBits? (q.context outer) i ≠ .ok (some 0))
    (hconsumes : d.document.consumes k b = true) (hsubstantial : d.Substantial c₀ b)
    (hmoves : ∀ {ctx : Context} {c c' : Cursor σ} {v : Value}, d.Meets c₀ levels ctx b c →
      ctx.exhausted c.pos = false → d.readElement levels ctx b c = .ok v c' → c.pos < c'.pos)
    (hroom : outer.exhausted start = false) :
    ∀ (children : List Nat) {p p' : Progress σ} {u : Unit},
    d.Traverses c₀ levels outer label start (.between children) p → start ≤ p.cursor.pos →
    Beyond d.document i start p.extent → b ∈ children →
    d.readElements (d.readElement levels) outer i start children p = .ok u p' →
    start < p'.cursor.pos
  | [], _, _, _, _, _, _, hb, _ => by cases hb
  | child :: rest, p, p', _, h, hstart, hp, hb, hok => by
      rcases readElements_cons_ok hok with
        ⟨hexhausted, hsame⟩ | ⟨least, most, p₁, hopen, hleast, hmost, hfirst, hrest⟩
      · -- only what has been read can have exhausted the structure
        have hne : p.cursor.pos ≠ start := fun hpos => by
          cases (hp.room hpos hroom).symm.trans hexhausted
        rw [hsame]
        omega
      · have hle₁ := readInstances_forward hfirst
        have hle := readElements_forward hrest
        have hturn := h.begun hopen hleast hmost
        rcases List.mem_cons.mp hb with rfl | hb
        · have hlt := h.turn_moves hconsumes hsubstantial hmoves hopen hleast hmost hfirst
          omega
        · -- the turn of the element is still to come, and the structure has not ended before it
          obtain ⟨h₁, hp₁⟩ := hturn.turn_beyond hs hextent hp hfirst
          exact Traverses.readElements_moves hextent hconsumes hsubstantial hmoves hroom rest h₁
            (by omega) hp₁ hb hrest

end

/-! ## Elements -/

/-- **What counts as consuming moves the cursor**, where decoding comes to it and if nothing in it
that depends on the data comes out as zero there. -/
theorem readElement_moves
    (hsubstantial : ∀ k i, d.document.consumes k i = true → d.Substantial c₀ i) :
    ∀ (levels : Nat) {k i : Nat} {ctx : Context} {c c' : Cursor σ} {v : Value},
    d.Meets c₀ levels ctx i c → d.document.consumes k i = true → ctx.exhausted c.pos = false →
    d.readElement levels ctx i c = .ok v c' → c.pos < c'.pos
  | 0, _, _, _, _, _, _, _, _, _, hok => by cases hok
  | levels + 1, k, i, ctx, c, c', v, hmeets, hconsumes, hroom, hok => by
      have hparts := hsubstantial k i hconsumes
      obtain ⟨m, hm, hbody⟩ := readElement_ok hok
      cases hm
      rcases readBody_ok hbody with ⟨s, body, hs, hread⟩ | ⟨hfield, _⟩
      · obtain ⟨horder, hal, last, padding, hfields, hfinish, _⟩ := readStructure_ends hread
        have hextent {stage : Stage} {q : Progress σ}
            (hq : d.Traverses c₀ levels ctx i c.pos stage q) :
            d.extentBits? (q.context ctx) s ≠ .ok (some 0) := hparts.extent hq hs
        unfold readFields at hfields
        obtain ⟨_, p₀, hopened, hfields⟩ := Reader.bind_ok hfields
        obtain ⟨_, p₁, helements, hclosed⟩ := Reader.bind_ok hfields
        have h₀ := Traverses.opened hmeets hs horder hal hopened
        have hp₀ : Beyond d.document s c.pos p₀.extent := by
          have hempty := hextent h₀
          rw [(settle_ok hopened).extentBits?_eq] at hempty
          exact (settle_ok hopened).beyond hempty trivial
        have hcursor₀ : p₀.cursor = c := (settle_ok hopened).cursor
        obtain ⟨⟨_, h₁⟩, hp₁⟩ := h₀.readElements hs hextent body.elements hp₀ helements
        have hlast := (settle_ok hclosed).beyond (hextent h₁) hp₁
        cases hext : last.extent with
        | pending => exact absurd hext (settle_ok hclosed).extent_ne_pending
        | fixed stop =>
            -- the structure ends where its length says
            rw [hext] at hlast hfinish
            obtain ⟨_, _, c₁, u, _, rfl⟩ := finish_fixed_ok hfinish
            exact hlast
        | unbounded =>
            -- it ends with its last field, and one of them counts as consuming
            rw [hext] at hlast hfinish
            obtain ⟨_, _, rfl⟩ := finish_open_ok (by exact nofun) hfinish
            rcases Document.consumes_structure hs hconsumes with hlength | ⟨b, hb, k', hconsumes'⟩
            · exact absurd hlast hlength
            · rw [(settle_ok hclosed).cursor]
              exact h₀.readElements_moves hs hextent hconsumes' (hsubstantial k' b hconsumes')
                (fun hb' => readElement_moves hsubstantial levels hb' hconsumes') hroom _
                (Nat.le_of_eq (congrArg Cursor.pos hcursor₀.symm)) hp₀ hb helements
      · exact readField_moves hconsumes (hparts.bound hmeets) hfield hbody

end Decoder

end BinaryGrammar
