import Mathlib
import GraphRpc.Codec.Decode
import GraphRpc.Codec.Encode

/-!
# Steps that succeed

What each step of writing and of reading does when it succeeds. Writing appends bytes that depend
on the written thing only. Reading succeeds just on those bytes and leaves what follows them, so the
two sides meet in the same equations.
-/

namespace GraphRpc.Wire

open Binary

/-- A length that a limit allows and 32 bits can carry. -/
def Within (len bound : Nat) : Prop := len ≤ bound ∧ len ≤ maxWord

theorem le_maxWord : n ≤ maxWord ↔ n < 256 ^ 4 := by
  simp only [maxWord, UInt32.size]
  omega

-- ---------------------------------------------------------------------------
-- The monad of steps
-- ---------------------------------------------------------------------------

section
variable {ε σ β γ : Type} {s s' : σ}

theorem bind_ok {x : EStateM ε σ β} {f : β → EStateM ε σ γ} :
    (x >>= f) s = .ok c s' ↔ ∃ b m, x s = .ok b m ∧ f b m = .ok c s' := by
  change EStateM.bind x f s = _ ↔ _
  unfold EStateM.bind
  cases x s with
  | ok b m => simp [and_assoc]
  | error e m => simp

theorem pure_ok {b c : β} : (pure b : EStateM ε σ β) s = .ok c s' ↔ b = c ∧ s = s' := by
  change EStateM.Result.ok b s = _ ↔ _
  simp

theorem throw_ok {b : β} : (throw e : EStateM ε σ β) s = .ok b s' ↔ False :=
  ⟨fun h => (nomatch h), fun h => h.elim⟩

theorem get_ok {a : σ} : (get : EStateM ε σ σ) s = .ok a s' ↔ s = a ∧ s = s' := by
  change EStateM.Result.ok s s = _ ↔ _
  simp

theorem lift_ok {x : Except ε β} : (liftM x : EStateM ε σ β) s = .ok b s' ↔ x = .ok b ∧ s = s' := by
  cases x with
  | ok a => exact pure_ok.trans (by simp)
  | error e => exact throw_ok.trans (by simp)

theorem run_bind_of_ok {x : EStateM ε σ β} {f : β → EStateM ε σ γ} (h : x s = .ok b s') :
    (x >>= f) s = f b s' := by
  change EStateM.bind x f s = _
  rw [EStateM.bind, h]

theorem run_bind_of_error {x : EStateM ε σ β} {f : β → EStateM ε σ γ} (h : x s = .error e s') :
    (x >>= f) s = .error e s' := by
  change EStateM.bind x f s = _
  rw [EStateM.bind, h]

theorem except_bind_ok {x : Except ε β} {f : β → Except ε γ} :
    x >>= f = .ok c ↔ ∃ b, x = .ok b ∧ f b = .ok c := by
  cases x <;> simp [bind, Except.bind]

theorem except_pure_ok {b c : β} : (pure b : Except ε β) = .ok c ↔ b = c := by
  simp [pure, Except.pure]

end

-- ---------------------------------------------------------------------------
-- Big-endian numbers
-- ---------------------------------------------------------------------------

theorem value_bigEndian (width n : Nat) : value (bigEndian width n) = n % 256 ^ width := by
  induction width generalizing n with
  | zero => simp [bigEndian, value, Nat.mod_one]
  | succ width ih =>
    have split : 256 ^ (width + 1) = 256 * 256 ^ width := Nat.pow_succ'
    rw [bigEndian, value_append_singleton, ih, UInt8.toNat_ofNat', split, Nat.mod_mul]
    omega

theorem value_bigEndian_of_lt {width n : Nat} (h : n < 256 ^ width) :
    value (bigEndian width n) = n := by
  rw [value_bigEndian, Nat.mod_eq_of_lt h]

theorem value_lt (digits : List UInt8) : value digits < 256 ^ digits.length := by
  induction digits using List.reverseRecOn with
  | nil => simp [value]
  | append_singleton digits d ih =>
    have hd : d.toNat < 256 := d.toNat_lt
    rw [value_append_singleton, List.length_append, List.length_singleton, Nat.pow_succ]
    omega

theorem bigEndian_value (digits : List UInt8) : bigEndian digits.length (value digits) = digits := by
  induction digits using List.reverseRecOn with
  | nil => rfl
  | append_singleton digits d ih =>
    have hd : d.toNat < 256 := d.toNat_lt
    have high : (value digits * 256 + d.toNat) / 256 = value digits := by omega
    have low : UInt8.ofNat (value digits * 256 + d.toNat) = d := by
      apply UInt8.toNat_inj.1
      rw [UInt8.toNat_ofNat']
      omega
    rw [List.length_append, List.length_singleton, value_append_singleton, bigEndian, high, low, ih]

theorem bigEndian_mod (width n : Nat) : bigEndian width (n % 256 ^ width) = bigEndian width n := by
  have h := bigEndian_value (bigEndian width n)
  rwa [length_bigEndian, value_bigEndian] at h

theorem bigEndian_inj (hm : m < 256 ^ width) (hn : n < 256 ^ width)
    (h : bigEndian width m = bigEndian width n) : m = n := by
  rw [← value_bigEndian_of_lt hm, h, value_bigEndian_of_lt hn]

-- ---------------------------------------------------------------------------
-- Texts
-- ---------------------------------------------------------------------------

def spellText (s : String) : List UInt8 := bigEndian 4 s.utf8ByteSize ++ s.toUTF8.data.toList

theorem toByteArray_toList (data : ByteArray) : data.data.toList.toByteArray = data := by
  apply ByteArray.ext
  rw [List.data_toByteArray, Array.toArray_toList]

theorem length_toUTF8 (s : String) : s.toUTF8.data.toList.length = s.utf8ByteSize := by
  rw [Array.length_toList]
  rfl

theorem fromUTF8?_eq_some {raw : List UInt8} :
    String.fromUTF8? raw.toByteArray = some s ↔ raw = s.toUTF8.data.toList := by
  have hraw : raw.toByteArray = s.toByteArray ↔ raw = s.toUTF8.data.toList := by
    rw [← List.toByteArray_inj, toByteArray_toList, String.toUTF8_eq_toByteArray]
  rw [← hraw]
  unfold String.fromUTF8?
  split
  · next valid =>
    constructor
    · intro h
      cases h
      rfl
    · intro h
      exact congrArg some (String.toByteArray_inj.1 h)
  · next invalid =>
    constructor
    · intro h
      cases h
    · intro h
      exact (invalid (h ▸ s.isValidUTF8)).elim

-- ---------------------------------------------------------------------------
-- Reading
-- ---------------------------------------------------------------------------

theorem take_ok {bytes taken rest : List UInt8} :
    ReadM.take n bytes = .ok taken rest ↔ bytes = taken ++ rest ∧ taken.length = n := by
  unfold ReadM.take
  constructor
  · intro h
    dsimp only at h
    split at h
    · cases h
    · next enough =>
      cases h
      have hlen : (bytes.take n).length ≤ n := List.length_take_le n bytes
      exact ⟨(List.take_append_drop n bytes).symm, by omega⟩
  · rintro ⟨rfl, rfl⟩
    simp

theorem byte_ok {bytes rest : List UInt8} : ReadM.byte bytes = .ok b rest ↔ bytes = b :: rest := by
  simp only [ReadM.byte, bind_ok, pure_ok, take_ok]
  constructor
  · rintro ⟨taken, _, ⟨rfl, hlen⟩, rfl, rfl⟩
    obtain ⟨c, rfl⟩ := List.length_eq_one_iff.1 hlen
    rfl
  · rintro rfl
    exact ⟨[b], rest, ⟨rfl, rfl⟩, rfl, rfl⟩

theorem nat_ok {bytes rest : List UInt8} :
    ReadM.nat width bytes = .ok n rest ↔ bytes = bigEndian width n ++ rest ∧ n < 256 ^ width := by
  simp only [ReadM.nat, bind_ok, pure_ok, take_ok]
  constructor
  · rintro ⟨digits, _, ⟨rfl, rfl⟩, rfl, rfl⟩
    rw [bigEndian_value]
    exact ⟨rfl, value_lt digits⟩
  · rintro ⟨rfl, hn⟩
    exact ⟨_, rest, ⟨rfl, length_bigEndian ..⟩, value_bigEndian_of_lt hn, rfl⟩

theorem length_ok {bytes rest : List UInt8} :
    ReadM.length what bound bytes = .ok len rest ↔
      bytes = bigEndian 4 len ++ rest ∧ Within len bound := by
  simp only [ReadM.length, bind_ok, nat_ok, ← le_maxWord, Within]
  constructor
  · rintro ⟨n, _, ⟨rfl, hn⟩, h⟩
    split at h
    · exact (throw_ok.1 h).elim
    · next hbound =>
      obtain ⟨rfl, rfl⟩ := pure_ok.1 h
      exact ⟨rfl, by omega, hn⟩
  · rintro ⟨rfl, hbound, hn⟩
    refine ⟨len, rest, ⟨rfl, hn⟩, ?_⟩
    rw [if_neg (by omega)]
    exact pure_ok.2 ⟨rfl, rfl⟩

theorem text_ok {bytes rest : List UInt8} :
    ReadM.text what bound bytes = .ok s rest ↔
      bytes = spellText s ++ rest ∧ Within s.utf8ByteSize bound := by
  simp only [ReadM.text, bind_ok, length_ok, take_ok, spellText]
  constructor
  · rintro ⟨len, _, ⟨rfl, hlen⟩, raw, _, ⟨rfl, rfl⟩, h⟩
    cases hs : String.fromUTF8? raw.toByteArray with
    | some s' =>
      rw [hs] at h
      obtain ⟨rfl, rfl⟩ := pure_ok.1 h
      obtain rfl := fromUTF8?_eq_some.1 hs
      rw [length_toUTF8] at hlen ⊢
      exact ⟨(List.append_assoc ..).symm, hlen⟩
    | none =>
      rw [hs] at h
      exact (throw_ok.1 h).elim
  · rintro ⟨rfl, hlen⟩
    refine ⟨_, _, ⟨List.append_assoc .., hlen⟩, _, rest, ⟨rfl, length_toUTF8 s⟩, ?_⟩
    rw [fromUTF8?_eq_some.2 rfl]
    exact pure_ok.2 ⟨rfl, rfl⟩

theorem read_ok {reader : ReadM β} {d d' : Decoder α} :
    DecodeM.read reader d = .ok b d' ↔ reader d.rest = .ok b d'.rest ∧ d.heap = d'.heap := by
  obtain ⟨rest, heap⟩ := d
  obtain ⟨rest', heap'⟩ := d'
  unfold DecodeM.read
  cases reader rest <;> simp [and_assoc]

-- ---------------------------------------------------------------------------
-- Writing
-- ---------------------------------------------------------------------------

def append (e : Encoder) (bytes : List UInt8) : Encoder := { e with out := e.out ++ bytes.toByteArray }

@[simp] theorem append_nil (e : Encoder) : append e [] = e := by simp [append]

@[simp] theorem append_append (e : Encoder) (a b : List UInt8) :
    append (append e a) b = append e (a ++ b) := by
  simp [append, List.toByteArray_append, ByteArray.append_assoc]

@[simp] theorem met_append (e : Encoder) (bytes : List UInt8) : (append e bytes).met = e.met := rfl

theorem putBytes_ok : EncodeM.putBytes data e = .ok u e' ↔ e' = append e data.data.toList := by
  rw [append, toByteArray_toList]
  change EStateM.Result.ok _ _ = _ ↔ _
  simp [eq_comm]

theorem putByte_ok : EncodeM.putByte b e = .ok u e' ↔ e' = append e [b] := by
  rw [append, ByteArray.append_toByteArray_singleton]
  change EStateM.Result.ok _ _ = _ ↔ _
  simp [eq_comm]

theorem putTag_ok : EncodeM.putTag tag e = .ok u e' ↔ e' = append e [tag.byte] := putByte_ok

theorem putNat_ok : EncodeM.putNat width n e = .ok u e' ↔ e' = append e (bigEndian width n) := by
  rw [EncodeM.putNat, putBytes_ok, List.data_toByteArray]

theorem checkLimit_ok : EncodeM.checkLimit what len bound e = .ok u e' ↔ Within len bound ∧ e = e' := by
  simp only [EncodeM.checkLimit, Within]
  split
  · next hlong =>
    rw [throw_ok]
    constructor
    · exact fun h => h.elim
    · rintro ⟨⟨hbound, hword⟩, -⟩
      omega
  · next hshort =>
    rw [pure_ok]
    constructor
    · exact fun h => ⟨by omega, h.2⟩
    · exact fun h => ⟨rfl, h.2⟩

theorem putText_ok : EncodeM.putText what s bound e = .ok u e' ↔
    Within s.utf8ByteSize bound ∧ e' = append e (spellText s) := by
  simp only [EncodeM.putText, bind_ok, checkLimit_ok, putNat_ok, putBytes_ok, spellText]
  constructor
  · rintro ⟨_, _, ⟨hlen, rfl⟩, _, _, rfl, rfl⟩
    exact ⟨hlen, append_append ..⟩
  · rintro ⟨hlen, rfl⟩
    exact ⟨(), e, ⟨hlen, rfl⟩, (), _, rfl, (append_append ..).symm⟩

end GraphRpc.Wire
