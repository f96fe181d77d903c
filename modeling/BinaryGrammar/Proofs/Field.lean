import BinaryGrammar.Proofs.Reader

/-!
# How far a field moves the cursor

Every field without fields of its own is read in the same way: some data are taken at the cursor,
and the value covers what lies between the cursor before and the cursor after. Three facts about
taking are all that the rest of the theory needs. The cursor stays a word and does not go back; it
does not leave the enclosing structure; and unless it starts and ends with a byte it moves by at
most sixty-four bits.
-/

set_option autoImplicit false

namespace BinaryGrammar

namespace ByteSource

variable {σ : Type}

theorem readFullFrom_size_le (src : ByteSource σ) (offset count : Nat) (got : Bytes) (s : σ)
    {bytes : Bytes} {s' : σ} (h : src.readFullFrom offset count got s = (.ok bytes, s'))
    (hgot : got.size ≤ count) : bytes.size ≤ count := by
  fun_induction readFullFrom src offset count got s with
  | case1 got s hlt hword more s₁ hread hmore =>
    injection h with h _
    injection h with h
    rw [← h]
    exact hgot
  | case2 got s hlt hword more s₁ hread hmore ih =>
    refine ih h ?_
    have hsize := src.readAt_size_le hread
    rw [Array.size_append]
    omega
  | case3 got s hlt hword reason s₁ hread ih => exact ih h hgot
  | case4 got s hlt hword reason s₁ hread => injection h with h _; cases h
  | case5 got s hlt hover => injection h with h _; cases h
  | case6 got s hge =>
    injection h with h _
    injection h with h
    rw [← h]
    exact hgot

theorem readFull_size_le {src : ByteSource σ} {offset count : Nat} {s s' : σ} {bytes : Bytes}
    (h : src.readFull offset count s = (.ok bytes, s')) : bytes.size ≤ count :=
  src.readFullFrom_size_le offset count #[] s h (Nat.zero_le _)

end ByteSource

namespace Decoder

open Reader (Checks)

variable {σ : Type} {d : Decoder σ} {ctx : Context} {c c' : Cursor σ}

/-! ## Fetching -/

theorem size_bind {β : Type} {f : Option Nat → Reader σ β} :
    (d.size >>= f) c = f (d.source.size c.source) c := rfl

theorem fetch_ok {offset count : Nat} {bytes : Bytes} (h : d.fetch offset count c = .ok bytes c') :
    ∃ s, d.source.readFull offset count c.source = (.ok bytes, s) ∧
      c' = { c with source := s } := by
  unfold fetch at h
  split at h
  · rename_i got s hread
    cases h
    exact ⟨s, hread, rfl⟩
  · cases h
  · cases h

theorem fetch_pos {offset count : Nat} {bytes : Bytes} (h : d.fetch offset count c = .ok bytes c') :
    c'.pos = c.pos := by
  obtain ⟨s, _, hc⟩ := fetch_ok h
  rw [hc]

theorem fetch_size_le {offset count : Nat} {bytes : Bytes}
    (h : d.fetch offset count c = .ok bytes c') : bytes.size ≤ count := by
  obtain ⟨s, hread, _⟩ := fetch_ok h
  exact ByteSource.readFull_size_le hread

theorem fetchChunks_pos {offset count : Nat} : ∀ (chunks : Nat) {got bytes : Bytes}
    {c c' : Cursor σ}, d.fetchChunks offset count chunks got c = .ok bytes c' → c'.pos = c.pos
  | 0, got, bytes, c, c', h => by cases h; rfl
  | chunks + 1, got, bytes, c, c', h => by
      unfold fetchChunks at h
      split at h
      · obtain ⟨more, c₁, hmore, h⟩ := Reader.bind_ok h
        rw [← fetch_pos hmore]
        split at h
        · cases h; rfl
        · exact fetchChunks_pos chunks h
      · cases h; rfl

/-! ## Taking -/

theorem requireRoom_checks (ctx : Context) (pos count : Nat) :
    Checks (requireRoom ctx pos count : Reader σ Unit)
      (∀ room, ctx.room pos = some room → count ≤ room) := by
  unfold requireRoom
  cases ctx.room pos with
  | none => exact .none
  | some room => exact .some (.require _ _)

/-- What it takes to take `count` bytes. -/
theorem take_ok {i count : Nat} {bytes : Bytes} (h : d.take ctx i count c = .ok bytes c') :
    c.pos % 8 = 0 ∧ (∀ room, ctx.room c.pos = some room → count ≤ room) ∧
      ∃ c₁, d.fetchChunks (c.pos / 8) count (count / chunk + 1) #[] c = .ok bytes c₁ ∧
        count ≤ bytes.size ∧ c.pos + count * 8 < Word.modulus ∧
        c' = { c₁ with pos := c.pos + count * 8 } := by
  unfold take at h
  obtain ⟨hal, h⟩ := Reader.ensureAligned_bind h
  rw [Reader.pos_bind] at h
  obtain ⟨hroom, h⟩ := (requireRoom_checks ..).bind h
  obtain ⟨got, c₁, hgot, h⟩ := Reader.bind_ok h
  split at h
  · cases h
  · rename_i hsize
    obtain ⟨hword, h⟩ := Reader.requireWord_bind h
    rw [Reader.moveTo_bind] at h
    cases h
    exact ⟨hal, hroom, c₁, hgot, by omega, hword, rfl⟩

theorem requireBits_checks (ctx : Context) (pos stop needed : Nat) :
    Checks (requireBits ctx pos stop needed : Reader σ Unit)
      (∀ l, ctx.limit = some l → stop ≤ l) := by
  unfold requireBits
  cases ctx.limit with
  | none => exact .none
  | some limit => exact .some (.require _ _)

/-- What it takes to take `count` bits. -/
theorem takeBits_ok {count n : Nat} (h : d.takeBits ctx count c = .ok n c') :
    c.pos + count + 7 < Word.modulus ∧ (∀ l, ctx.limit = some l → c.pos + count ≤ l) ∧
      ∃ bytes c₁,
        d.fetch (c.pos / 8) (Word.bytesOfBits (c.pos + count) - c.pos / 8) c = .ok bytes c₁ ∧
        Word.bytesOfBits (c.pos + count) - c.pos / 8 ≤ bytes.size ∧
        c' = { c₁ with pos := c.pos + count } ∧
        n = bytes.bitsToNat (c.pos % 8) (c.pos + count - c.pos) := by
  unfold takeBits at h
  rw [Reader.pos_bind] at h
  obtain ⟨hword, h⟩ := Reader.requireWord_bind h
  obtain ⟨hlimit, h⟩ := (requireBits_checks ..).bind h
  obtain ⟨bytes, c₁, hfetch, h⟩ := Reader.bind_ok h
  obtain ⟨hsize, h⟩ := Reader.require_bind h
  rw [Reader.moveTo_bind] at h
  cases h
  exact ⟨hword, hlimit, bytes, c₁, hfetch, hsize, rfl, rfl⟩

/-- A unit that is found lies inside the bytes. -/
theorem findUnit?_le {bytes : Bytes} {width i : Nat} {p : Bytes → Bool}
    (h : bytes.findUnit? width (bytes.size / width) p = some i) :
    i * width + width ≤ bytes.size := by
  have hi : i < bytes.size / width := List.mem_range.mp (List.mem_of_find?_eq_some h)
  rw [← Nat.succ_mul]
  exact Nat.le_trans (Nat.mul_le_mul_right _ hi) (Nat.div_mul_le_self ..)

/-- A scan consumes no more than it may. -/
theorem scan_consumed_le {terminator : Bytes} {offset cap : Nat} : ∀ (windows : Nat)
    {text : Bytes} {found : Scan} {c c' : Cursor σ},
    d.scan terminator offset cap windows text c = .ok found c' → text.size ≤ cap →
    found.consumed ≤ cap ∧ c'.pos = c.pos
  | 0, text, found, c, c', h, hcap => by cases h; exact ⟨hcap, rfl⟩
  | windows + 1, text, found, c, c', h, hcap => by
      unfold scan at h
      dsimp only at h
      obtain ⟨_, h⟩ := Reader.require_bind h
      split at h
      · cases h
        exact ⟨hcap, rfl⟩
      · obtain ⟨got, c₁, hgot, h⟩ := Reader.bind_ok h
        have hsize := fetch_size_le hgot
        have hwant : got.size ≤ cap - text.size := Nat.le_trans hsize (Nat.min_le_left ..)
        rw [← fetch_pos hgot]
        cases hfind : got.findUnit? terminator.size (got.size / terminator.size)
            (· == terminator) with
        | some i =>
            simp only [hfind] at h
            obtain ⟨_, h⟩ := Reader.requireWord_bind h
            cases h
            have hunits := findUnit?_le hfind
            exact ⟨by dsimp only; omega, rfl⟩
        | none =>
            simp only [hfind] at h
            obtain ⟨_, h⟩ := Reader.requireWord_bind h
            have hunits : got.size / terminator.size * terminator.size ≤ got.size :=
              Nat.div_mul_le_self ..
            -- only whole units are kept, so a terminator is never cut in two
            have htext : (text ++ got.extract 0
                (got.size / terminator.size * terminator.size)).size ≤ cap := by
              rw [Array.size_append, Array.size_extract]
              omega
            split at h
            · cases h
              exact ⟨htext, rfl⟩
            · exact scan_consumed_le windows h htext

/-- What it takes to take the bytes before a terminator. -/
theorem takeTerminated_ok {terminator text : Bytes} {max : Option Nat}
    (h : d.takeTerminated ctx terminator max c = .ok text c') :
    ∃ (found : Scan) (c₁ : Cursor σ), d.scan terminator (c.pos / 8) (scanCap max (ctx.room c.pos))
        (scanCap max (ctx.room c.pos) / window + 2) #[] c = .ok found c₁ ∧
      found.text = text ∧ c.pos + found.consumed * 8 < Word.modulus ∧
      c' = { c₁ with pos := c.pos + found.consumed * 8 } := by
  unfold takeTerminated at h
  rw [Reader.pos_bind] at h
  obtain ⟨found, c₁, hscan, h⟩ := Reader.bind_ok h
  obtain ⟨_, h⟩ := Reader.require_bind h
  obtain ⟨hword, h⟩ := Reader.requireWord_bind h
  rw [Reader.moveTo_bind] at h
  cases h
  exact ⟨found, c₁, hscan, rfl, hword, rfl⟩

/-! ## Fields -/

/-- All the ways in which a field takes data. -/
inductive Intake (d : Decoder σ) (ctx : Context) : Cursor σ → Cursor σ → Prop where
  | nothing {c : Cursor σ} : Intake d ctx c c
  | bytes {i count : Nat} {bytes : Bytes} {c c' : Cursor σ} :
      d.take ctx i count c = .ok bytes c' → Intake d ctx c c'
  | bits {count n : Nat} {c c' : Cursor σ} :
      count ≤ 64 → d.takeBits ctx count c = .ok n c' → Intake d ctx c c'
  /-- The number of bytes and then the bytes. -/
  | counted {i width count : Nat} {before bytes : Bytes} {c c₁ c' : Cursor σ} :
      d.take ctx i width c = .ok before c₁ → d.take ctx i count c₁ = .ok bytes c' →
      Intake d ctx c c'
  | terminated {terminator text : Bytes} {max : Option Nat} {c c' : Cursor σ} :
      c.pos % 8 = 0 → d.takeTerminated ctx terminator max c = .ok text c' → Intake d ctx c c'
  | script {i : Nat} {request : ScriptRequest} {out : ScriptValue} {v : Value}
      {c c₁ c' : Cursor σ} :
      c.pos % 8 = 0 → d.runScript request c = .ok out c₁ →
      d.acceptScript ctx i c.pos out c₁ = .ok v c' → Intake d ctx c c'

/-- A field has been read: data were taken, and the value covers them. -/
structure FieldRead (d : Decoder σ) (ctx : Context) (i : Nat) (c : Cursor σ) (v : Value)
    (c' : Cursor σ) : Prop where
  intake : Intake d ctx c c'
  le : c.pos ≤ c'.pos
  /-- The end is a word even when it is rounded up to a byte. -/
  word : c'.pos + 7 < Word.modulus
  value : ∃ payload, v = .leaf i c.pos c'.pos payload

theorem requireMatch_ok {i : Nat} {accepted : Bool} {v w : Value}
    (h : d.requireMatch i accepted v c = .ok w c') : w = v ∧ c' = c := by
  unfold requireMatch at h
  split at h
  · cases h
  · cases h
    exact ⟨rfl, rfl⟩

/-- What it takes to make the value of a field. -/
theorem finishLeaf_ok {i start : Nat} {payload : Payload} {v : Value}
    (h : finishLeaf i start payload c = .ok v c') :
    v = .leaf i start c.pos payload ∧ c' = c ∧ start ≤ c.pos ∧ c.pos + 7 < Word.modulus := by
  unfold finishLeaf at h
  rw [Reader.pos_bind] at h
  obtain ⟨hword, h⟩ := Reader.requireWord_bind h
  obtain ⟨hle, h⟩ := Reader.require_bind h
  cases h
  exact ⟨rfl, rfl, hle, hword⟩

/-- The end of every reader of a field: the value is made and compared with the fixed values. -/
theorem finish_match_ok {i start : Nat} {payload : Payload} {accepts : Value → Bool} {v : Value}
    (h : (finishLeaf i start payload >>= fun v => d.requireMatch i (accepts v) v) c = .ok v c') :
    v = .leaf i start c.pos payload ∧ c' = c ∧ start ≤ c.pos ∧ c.pos + 7 < Word.modulus := by
  obtain ⟨w, c₁, hw, h⟩ := Reader.bind_ok h
  obtain ⟨rfl, rfl, hplace⟩ := finishLeaf_ok hw
  obtain ⟨hv, hc⟩ := requireMatch_ok h
  exact ⟨hv, hc, hplace⟩

theorem takeInteger_ok {i bits n : Nat} {big : Bool}
    (h : d.takeInteger ctx i bits big c = .ok n c') : Intake d ctx c c' := by
  unfold takeInteger at h
  obtain ⟨hbits, h⟩ := Reader.require_bind h
  rw [Reader.pos_bind] at h
  split at h
  · obtain ⟨bytes, c₁, htake, h⟩ := Reader.bind_ok h
    cases h
    exact .bytes htake
  · exact .bits hbits.2 h

theorem takeNumber_ok {i bits : Nat} {big : Bool} {payload : Payload}
    (h : d.takeNumber ctx i bits big c = .ok payload c') : Intake d ctx c c' := by
  unfold takeNumber at h
  cases htype : d.document.numberType i with
  | integer =>
      simp only [htype] at h
      unfold readInteger at h
      obtain ⟨raw, c₁, hraw, h⟩ := Reader.bind_ok h
      cases h
      exact takeInteger_ok hraw
  | float =>
      simp only [htype] at h
      unfold readFloat at h
      obtain ⟨_, h⟩ := Reader.require_bind h
      obtain ⟨bytes, c₁, htake, h⟩ := Reader.bind_ok h
      cases h
      exact .bytes htake

/-- What it takes to read a number. -/
theorem readNumber_taken {i : Nat} {body : NumberBody} {v : Value}
    (h : d.readNumber ctx i body c = .ok v c') :
    ∃ bits big payload, d.bigEndian i = .ok big ∧ d.takeNumber ctx i bits big c = .ok payload c' ∧
      v = .leaf i c.pos c'.pos payload ∧ c.pos ≤ c'.pos ∧ c'.pos + 7 < Word.modulus := by
  unfold readNumber at h
  rw [Reader.pos_bind] at h
  obtain ⟨bits, _, h⟩ := Reader.ofExcept_bind h
  obtain ⟨big, hbig, h⟩ := Reader.ofExcept_bind h
  obtain ⟨payload, c₁, htake, h⟩ := Reader.bind_ok h
  obtain ⟨hv, hc, hplace⟩ := finish_match_ok h
  rw [hc]
  exact ⟨bits, big, payload, hbig, htake, hv, hplace⟩

theorem readNumber_ok {i : Nat} {body : NumberBody} {v : Value}
    (h : d.readNumber ctx i body c = .ok v c') : FieldRead d ctx i c v c' := by
  obtain ⟨bits, big, payload, _, htake, hv, hle, hword⟩ := readNumber_taken h
  exact ⟨takeNumber_ok htake, hle, hword, payload, hv⟩

/-- What it takes to read an offset. -/
theorem readOffset_taken {i : Nat} {v : Value} (h : d.readOffset ctx i c = .ok v c') :
    ∃ bits big raw, d.bigEndian i = .ok big ∧ d.takeInteger ctx i bits big c = .ok raw c' ∧
      v = .leaf i c.pos c'.pos (.offset raw) ∧ c.pos ≤ c'.pos ∧ c'.pos + 7 < Word.modulus := by
  unfold readOffset at h
  rw [Reader.pos_bind] at h
  obtain ⟨bits, _, h⟩ := Reader.ofExcept_bind h
  obtain ⟨big, hbig, h⟩ := Reader.ofExcept_bind h
  obtain ⟨raw, c₁, htake, h⟩ := Reader.bind_ok h
  obtain ⟨hv, hc, hplace⟩ := finishLeaf_ok h
  rw [hc]
  exact ⟨bits, big, raw, hbig, htake, hv, hplace⟩

theorem readOffset_ok {i : Nat} {v : Value} (h : d.readOffset ctx i c = .ok v c') :
    FieldRead d ctx i c v c' := by
  obtain ⟨bits, big, raw, _, htake, hv, hle, hword⟩ := readOffset_taken h
  exact ⟨takeInteger_ok htake, hle, hword, .offset raw, hv⟩

theorem takeDelimited_ok {i : Nat} {terminator text : Bytes} (hal : c.pos % 8 = 0)
    (h : d.takeDelimited ctx i terminator c = .ok text c') : Intake d ctx c c' := by
  unfold takeDelimited at h
  obtain ⟨max, _, h⟩ := Reader.ofExcept_bind h
  exact .terminated hal h

theorem takeString_ok {i : Nat} {body : StringBody} {encoding : Option Text.Encoding}
    {bytes : Bytes} (hal : c.pos % 8 = 0) (h : d.takeString ctx i body encoding c = .ok bytes c') :
    Intake d ctx c c' := by
  unfold takeString at h
  cases htype : d.document.stringType i with
  | fixedLength =>
      simp only [htype] at h
      unfold takeFixed at h
      obtain ⟨length, _, h⟩ := Reader.ofExcept_bind h
      obtain ⟨got, c₁, htake, h⟩ := Reader.bind_ok h
      cases h
      exact .bytes htake
  | pascal =>
      simp only [htype] at h
      unfold takeCounted at h
      obtain ⟨width, _, h⟩ := Reader.ofExcept_bind h
      obtain ⟨_, h⟩ := Reader.require_bind h
      obtain ⟨big, _, h⟩ := Reader.ofExcept_bind h
      obtain ⟨before, c₁, hbefore, h⟩ := Reader.bind_ok h
      exact .counted hbefore h
  | zeroTerminated =>
      simp only [htype] at h
      exact takeDelimited_ok hal h
  | delimiterTerminated =>
      simp only [htype] at h
      exact takeDelimited_ok hal h

theorem readString_ok {i : Nat} {body : StringBody} {v : Value}
    (h : d.readString ctx i body c = .ok v c') : FieldRead d ctx i c v c' := by
  unfold readString at h
  obtain ⟨hal, h⟩ := Reader.ensureAligned_bind h
  rw [Reader.pos_bind] at h
  obtain ⟨bytes, c₁, htake, h⟩ := Reader.bind_ok h
  obtain ⟨text, _, h⟩ := Reader.ofExcept_bind h
  obtain ⟨hv, hc, hle, hword⟩ := finish_match_ok h
  rw [hc]
  exact ⟨takeString_ok hal htake, hle, hword, .text text, hv⟩

/-- What it takes to read a run of bytes. -/
theorem readBinary_taken {i : Nat} {body : BinaryBody} {v : Value}
    (h : d.readBinary ctx i body c = .ok v c') :
    ∃ count bytes, d.take ctx i count c = .ok bytes c' ∧
      v = .leaf i c.pos c'.pos (.bytes bytes) ∧ c.pos ≤ c'.pos ∧ c'.pos + 7 < Word.modulus := by
  unfold readBinary at h
  rw [Reader.pos_bind] at h
  obtain ⟨count, _, h⟩ := Reader.ofExcept_bind h
  obtain ⟨bytes, c₁, htake, h⟩ := Reader.bind_ok h
  obtain ⟨hv, hc, hplace⟩ := finish_match_ok h
  rw [hc]
  exact ⟨count, bytes, htake, hv, hplace⟩

theorem readBinary_ok {i : Nat} {body : BinaryBody} {v : Value}
    (h : d.readBinary ctx i body c = .ok v c') : FieldRead d ctx i c v c' := by
  obtain ⟨count, bytes, htake, hv, hle, hword⟩ := readBinary_taken h
  exact ⟨.bytes htake, hle, hword, .bytes bytes, hv⟩

theorem readNothing_ok {i : Nat} {v : Value} (h : readNothing i c = .ok v c') :
    FieldRead d ctx i c v c' := by
  unfold readNothing at h
  rw [Reader.pos_bind] at h
  obtain ⟨hv, rfl, hle, hword⟩ := finishLeaf_ok h
  exact ⟨.nothing, hle, hword, .none, hv⟩

/-! ## Fields of scripts -/

theorem requireInside_checks (ctx : Context) (start length stop : Nat) :
    Checks (requireInside ctx start length stop : Reader σ Unit)
      (∀ l, ctx.limit = some l → Word.mulSaturating stop 8 ≤ l) := by
  unfold requireInside
  cases ctx.limit with
  | none => exact .none
  | some limit => exact .some (.require _ _)

theorem requireData_checks (size : Option Nat) (offset length stop : Nat) :
    Checks (requireData size offset length stop : Reader σ Unit)
      (∀ n, size = some n → stop ≤ n) := by
  unfold requireData
  cases size with
  | none => exact .none
  | some n => exact .some (.require _ _)

/-- What it takes to cover a field with what a script made of it. -/
theorem acceptScript_ok {i start : Nat} {out : ScriptValue} {v : Value}
    (h : d.acceptScript ctx i start out c = .ok v c') :
    ∃ stop, Word.add? (start / 8) out.length = some stop ∧
      (∀ l, ctx.limit = some l → Word.mulSaturating stop 8 ≤ l) ∧
      (∀ n, d.source.size c.source = some n → stop ≤ n) ∧
      c' = { c with pos := stop * 8 } ∧ v = .leaf i start c'.pos (.custom out.display) ∧
      start ≤ c'.pos ∧ c'.pos + 7 < Word.modulus := by
  unfold acceptScript at h
  cases hstop : Word.add? (start / 8) out.length with
  | none =>
      simp only [hstop] at h
      cases h
  | some stop =>
      simp only [hstop] at h
      obtain ⟨hlimit, h⟩ := (requireInside_checks ..).bind h
      rw [size_bind] at h
      obtain ⟨hdata, h⟩ := (requireData_checks ..).bind h
      obtain ⟨_, h⟩ := Reader.requireWord_bind h
      rw [Reader.moveTo_bind] at h
      obtain ⟨hv, hc, hplace⟩ := finishLeaf_ok h
      rw [hc]
      exact ⟨stop, rfl, hlimit, hdata, rfl, hv, hplace⟩

theorem readCustom_ok {i : Nat} {body : CustomBody} {v : Value}
    (h : d.readCustom ctx i body c = .ok v c') : FieldRead d ctx i c v c' := by
  unfold readCustom at h
  obtain ⟨hal, h⟩ := Reader.ensureAligned_bind h
  cases hscript : body.script.bind (·.target) with
  | none =>
      simp only [hscript] at h
      cases h
  | some script =>
      simp only [hscript] at h
      rw [Reader.pos_bind] at h
      obtain ⟨hint, _, h⟩ := Reader.ofExcept_bind h
      obtain ⟨out, c₁, hrun, h⟩ := Reader.bind_ok h
      obtain ⟨stop, _, _, _, _, hv, hle, hword⟩ := acceptScript_ok h
      exact ⟨.script hal hrun h, hle, hword, .custom out.display, hv⟩

/-! ## What every field has in common -/

namespace Intake

/-- A cursor that counts bytes forward stays inside the room that there is. -/
private theorem advance_le {pos count l : Nat} (hpos : pos ≤ l) (hroom : count ≤ (l - pos) / 8) :
    pos + count * 8 ≤ l := by
  omega

private theorem take_limit {i count l : Nat} {bytes : Bytes}
    (h : d.take ctx i count c = .ok bytes c') (hl : ctx.limit = some l) (hc : c.pos ≤ l) :
    c'.pos ≤ l := by
  obtain ⟨_, hroom, c₁, _, _, _, hc'⟩ := take_ok h
  rw [hc']
  exact advance_le hc (hroom _ (by unfold Context.room; rw [hl]; rfl))

/-- Taking data does not leave the enclosing structure. -/
theorem limit (h : Intake d ctx c c') {l : Nat} (hl : ctx.limit = some l) (hc : c.pos ≤ l) :
    c'.pos ≤ l := by
  cases h with
  | nothing => exact hc
  | bytes h => exact take_limit h hl hc
  | bits _ h =>
      obtain ⟨_, hlimit, _, c₁, _, _, hc', _⟩ := takeBits_ok h
      rw [hc']
      exact hlimit l hl
  | counted h₁ h₂ => exact take_limit h₂ hl (take_limit h₁ hl hc)
  | terminated _ h =>
      obtain ⟨found, c₁, hscan, _, _, hc'⟩ := takeTerminated_ok h
      have hroom : ctx.room c.pos = some ((l - c.pos) / 8) := by
        unfold Context.room; rw [hl]; rfl
      have hcap := (scan_consumed_le _ hscan (Nat.zero_le _)).1
      rw [hroom] at hcap
      rw [hc']
      exact advance_le hc (Nat.le_trans hcap (Nat.min_le_right ..))
  | script _ _ h =>
      obtain ⟨stop, _, hlimit, _, hc', _, _, hword⟩ := acceptScript_ok h
      -- what is compared with the limit saturates only beyond all words
      have hsat := hlimit l hl
      rw [hc'] at hword ⊢
      unfold Word.mulSaturating Word.mask at hsat
      unfold Word.modulus at hword
      dsimp only at hword ⊢
      omega

/-- A field covers whole bytes, nothing, or at most sixty-four bits. -/
theorem width (h : Intake d ctx c c') :
    c' = c ∨ (c.pos % 8 = 0 ∧ c'.pos % 8 = 0) ∨ ∃ k ≤ 64, c'.pos = c.pos + k := by
  cases h with
  | nothing => exact Or.inl rfl
  | bytes h =>
      obtain ⟨hal, _, c₁, _, _, _, hc'⟩ := take_ok h
      refine Or.inr (Or.inl ⟨hal, ?_⟩)
      rw [hc']
      dsimp only
      omega
  | bits hcount h =>
      obtain ⟨_, _, _, c₁, _, _, hc', _⟩ := takeBits_ok h
      exact Or.inr (Or.inr ⟨_, hcount, by rw [hc']⟩)
  | counted h₁ h₂ =>
      obtain ⟨hal, _⟩ := take_ok h₁
      obtain ⟨hal₁, _, c₁, _, _, _, hc'⟩ := take_ok h₂
      refine Or.inr (Or.inl ⟨hal, ?_⟩)
      rw [hc']
      dsimp only
      omega
  | terminated hal h =>
      obtain ⟨found, c₁, _, _, _, hc'⟩ := takeTerminated_ok h
      refine Or.inr (Or.inl ⟨hal, ?_⟩)
      rw [hc']
      dsimp only
      omega
  | script hal _ h =>
      obtain ⟨stop, _, _, _, hc', _⟩ := acceptScript_ok h
      refine Or.inr (Or.inl ⟨hal, ?_⟩)
      rw [hc']
      exact Nat.mul_mod_left ..

/-- Taking data does not move the cursor back. -/
theorem le (h : Intake d ctx c c') : c.pos ≤ c'.pos := by
  cases h with
  | nothing => exact Nat.le_refl _
  | bytes h =>
      obtain ⟨_, _, c₁, _, _, _, hc'⟩ := take_ok h
      rw [hc']
      exact Nat.le_add_right ..
  | bits _ h =>
      obtain ⟨_, _, _, c₁, _, _, hc', _⟩ := takeBits_ok h
      rw [hc']
      exact Nat.le_add_right ..
  | counted h₁ h₂ =>
      obtain ⟨_, _, c₁, _, _, _, hc₁⟩ := take_ok h₁
      obtain ⟨_, _, c₂, _, _, _, hc'⟩ := take_ok h₂
      rw [hc', hc₁]
      dsimp only
      omega
  | terminated _ h =>
      obtain ⟨found, c₁, _, _, _, hc'⟩ := takeTerminated_ok h
      rw [hc']
      exact Nat.le_add_right ..
  | script _ _ h =>
      obtain ⟨_, _, _, _, _, _, hle, _⟩ := acceptScript_ok h
      exact hle

end Intake

end Decoder

end BinaryGrammar
