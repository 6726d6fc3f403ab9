import EnkiNet.Fields

/-!
# Two builds on the two ends

A 32-bit build writes lengths in four bytes and a 64-bit build in eight, and each reads
them as it writes them.  `cross_build` says for every two builds and every script when
the reader gets the written values: its own bytes for these values have to start what
the writer has sent.  If it also has to end where the packet ends, the two widths are
equal or nothing has a length.
-/

namespace EnkiNet

open ByteStore Packet

inductive Build
  | bits32
  | bits64
  deriving DecidableEq, Repr

/-- `sizeof(std::size_t)`. -/
def Build.width : Build → Nat
  | .bits32 => 4
  | .bits64 => 8

/-- The packet that the writer's build makes of a script arrives at the reader's build as
`r`. -/
def Sends (writer : Build) (h : PacketHeader) (script : List Field) (r : Packet) : Prop :=
  ∃ p data, Fallible.forEach script (Field.put writer.width) (ofHeader h) = (.ok (), p) ∧
    p.wire = .ok data ∧ ofData data = .ok r

/-- The reader's build gets the written values. -/
def Decodes (writer reader : Build) (h : PacketHeader) (script : List Field) : Prop :=
  ∃ r r', Sends writer h script r ∧
    readAll (FieldType.get reader.width) (script.map Field.type) r = (.ok script, r')

/-- The reader's build gets the written values, and that is all there is in the packet. -/
def DecodesWhole (writer reader : Build) (h : PacketHeader) (script : List Field) : Prop :=
  ∃ r r', Sends writer h script r ∧
    readAll (FieldType.get reader.width) (script.map Field.type) r = (.ok script, r') ∧
    r'.bytesRead = r.bytes.length

/-- What a build writes behind the header. -/
def encode (build : Build) (script : List Field) : List Byte :=
  script.flatMap (Field.bytes build.width)

theorem length_encode (build : Build) (script : List Field) :
    (encode build script).length =
      build.width * (script.map Field.prefixes).sum + (script.map Field.contentLength).sum := by
  induction script with
  | nil => rfl
  | cons f fs ih =>
      rw [encode, List.flatMap_cons, List.length_append, Field.length_bytes]
      unfold encode at ih
      rw [ih, List.map_cons, List.map_cons, List.sum_cons, List.sum_cons]
      ring

/-- Lengths that both builds encode in the same number of bytes. -/
theorem length_encode_eq_iff (writer reader : Build) (script : List Field) :
    (encode writer script).length = (encode reader script).length ↔
      writer = reader ∨ ∀ f ∈ script, f.prefixes = 0 := by
  have hsum : (script.map Field.prefixes).sum = 0 ↔ ∀ f ∈ script, f.prefixes = 0 := by
    simp [List.sum_eq_zero_iff]
  rw [length_encode, length_encode, ← hsum]
  cases writer <;> cases reader <;> simp [Build.width]

/-- What arrives when every value can be written. -/
theorem sends_iff {writer : Build} {h : PacketHeader} {script : List Field}
    (htravels : ∀ f ∈ script, f.Travels) {r : Packet} :
    Sends writer h script r ↔ r = received (h.toBytes ++ encode writer script) := by
  have hputs : Puts (Fallible.forEach script (Field.put writer.width)) (encode writer script) :=
    Puts.forEach fun f hf => Field.puts writer.width (htravels f hf)
  obtain ⟨w, hrun, howned, hwritten, _, _⟩ := hputs (ofHeader h) (by simp [ofHeader])
  have hfresh : (ofHeader h).written = h.toBytes := by
    apply List.take_of_length_le
    simp [ofHeader]
  have hwire : w.wire = .ok (h.toBytes ++ encode writer script) := by
    rw [wire, if_pos howned, ← hfresh, ← hwritten]
    rfl
  have harrive : ofData (h.toBytes ++ encode writer script) =
      .ok (received (h.toBytes ++ encode writer script)) := ofData_eq (by simp)
  constructor
  · rintro ⟨p, data, hrun', hwire', hdata⟩
    rw [hrun] at hrun'
    cases hrun'
    rw [hwire] at hwire'
    cases hwire'
    rw [harrive] at hdata
    cases hdata
    rfl
  · rintro rfl
    exact ⟨w, _, hrun, hwire, harrive⟩

/-- Builds that need as many bytes for a script write the same. -/
theorem encode_eq_of_same {writer reader : Build} {script : List Field}
    (h : writer = reader ∨ ∀ f ∈ script, f.prefixes = 0) :
    encode reader script = encode writer script := by
  rcases h with rfl | hnone
  · rfl
  · apply List.flatMap_congr
    intro f hf
    cases f with
    | scalar k v => rfl
    | _ => exact absurd (hnone _ hf) (by simp [Field.prefixes])

/-! ## What the reader gets -/

section
variable {writer reader : Build} {h : PacketHeader} {script : List Field}

theorem travels_of_read {r r' : Packet}
    (hread : readAll (FieldType.get reader.width) (script.map Field.type) r = (.ok script, r')) :
    ∀ f ∈ script, f.Travels := by
  intro f hf
  obtain ⟨s, s', hget⟩ := get_of_readAll hread f hf
  exact Field.travels_of_get hget

/-- What the reader's build makes of the bytes of the writer's. -/
theorem read_iff (htravels : ∀ f ∈ script, f.Travels) (hfits : ∀ f ∈ script, f.Fits reader.width)
    (r' : Packet) :
    readAll (FieldType.get reader.width) (script.map Field.type)
        (received (h.toBytes ++ encode writer script)) = (.ok script, r') ↔
      encode reader script <+: encode writer script ∧
        r' = (received (h.toBytes ++ encode writer script)).skip (encode reader script).length := by
  have hyields : Yields (readAll (FieldType.get reader.width) (script.map Field.type)) script
      (encode reader script) :=
    yields_readAll fun f hf => Field.yields (htravels f hf) (hfits f hf)
  have hbetween : (received (h.toBytes ++ encode writer script)).Between :=
    ⟨rfl, by simp [received]⟩
  have hahead : (received (h.toBytes ++ encode writer script)).Ahead (encode reader script) ↔
      encode reader script <+: encode writer script := by
    have hdrop : (h.toBytes ++ encode writer script).drop headerSize = encode writer script :=
      List.drop_left' (by simp)
    unfold Ahead
    conv_rhs => rw [← hdrop]
    rfl
  rw [hyields _ hbetween r', hahead]

theorem decodes_iff (hfits : ∀ f ∈ script, f.Fits reader.width) :
    Decodes writer reader h script ↔
      (∀ f ∈ script, f.Travels) ∧ encode reader script <+: encode writer script := by
  constructor
  · rintro ⟨r, r', hsends, hread⟩
    have htravels := travels_of_read hread
    rw [sends_iff htravels] at hsends
    subst hsends
    exact ⟨htravels, ((read_iff htravels hfits r').mp hread).1⟩
  · rintro ⟨htravels, hstart⟩
    exact ⟨_, _, (sends_iff htravels).mpr rfl, (read_iff htravels hfits _).mpr ⟨hstart, rfl⟩⟩

theorem decodesWhole_iff (hfits : ∀ f ∈ script, f.Fits reader.width) :
    DecodesWhole writer reader h script ↔
      (∀ f ∈ script, f.Travels) ∧ (writer = reader ∨ ∀ f ∈ script, f.prefixes = 0) := by
  have hend : ((received (h.toBytes ++ encode writer script)).skip
      (encode reader script).length).bytesRead =
        (received (h.toBytes ++ encode writer script)).bytes.length ↔
      (encode writer script).length = (encode reader script).length := by
    change headerSize + (encode reader script).length =
      (h.toBytes ++ encode writer script).length ↔ _
    rw [List.length_append, PacketHeader.length_toBytes]
    omega
  constructor
  · rintro ⟨r, r', hsends, hread, hwhole⟩
    have htravels := travels_of_read hread
    rw [sends_iff htravels] at hsends
    subst hsends
    obtain ⟨_, rfl⟩ := (read_iff htravels hfits r').mp hread
    exact ⟨htravels, (length_encode_eq_iff writer reader script).mp (hend.mp hwhole)⟩
  · rintro ⟨htravels, hsame⟩
    have hstart : encode reader script <+: encode writer script :=
      encode_eq_of_same hsame ▸ List.prefix_rfl
    refine ⟨_, _, (sends_iff htravels).mpr rfl, (read_iff htravels hfits _).mpr ⟨hstart, rfl⟩, ?_⟩
    exact hend.mpr ((length_encode_eq_iff writer reader script).mpr hsame)

/-- **Cross-build decoding.** -/
theorem cross_build (writer reader : Build) (h : PacketHeader) (script : List Field)
    (hfits : ∀ f ∈ script, f.Fits writer.width ∧ f.Fits reader.width) :
    (Decodes writer reader h script ↔
      (∀ f ∈ script, f.Travels) ∧ encode reader script <+: encode writer script) ∧
    (DecodesWhole writer reader h script ↔
      (∀ f ∈ script, f.Travels) ∧ (writer = reader ∨ ∀ f ∈ script, f.prefixes = 0)) :=
  ⟨decodes_iff fun f hf => (hfits f hf).2, decodesWhole_iff fun f hf => (hfits f hf).2⟩

end

theorem length_hi : ([0x68, 0x69] : List Byte).length < 2 ^ 64 := by decide

/-- A string and a number behind it. -/
def greeting : List Field := [.string ⟨[0x68, 0x69], length_hi⟩, .scalar 4 7]

theorem cross_build_greeting :
    (Decodes .bits64 .bits64 {} greeting ↔
      (∀ f ∈ greeting, f.Travels) ∧ encode .bits64 greeting <+: encode .bits64 greeting) ∧
    (DecodesWhole .bits64 .bits64 {} greeting ↔
      (∀ f ∈ greeting, f.Travels) ∧
        ((Build.bits64 = .bits64) ∨ ∀ f ∈ greeting, f.prefixes = 0)) :=
  cross_build .bits64 .bits64 {} greeting (by simp [greeting, Field.Fits, Build.width])

/-- The greeting of a 64-bit build does not reach a 32-bit build, nor the other way round. -/
theorem greeting_lost :
    ¬ Decodes .bits64 .bits32 {} greeting ∧ ¬ Decodes .bits32 .bits64 {} greeting := by
  have hfits : ∀ build : Build, ∀ f ∈ greeting, f.Fits build.width := by
    intro build
    cases build <;> simp [greeting, Field.Fits, Build.width]
  refine ⟨?_, ?_⟩
  · rw [decodes_iff (hfits .bits32)]
    exact fun h => absurd h.2 (by decide)
  · rw [decodes_iff (hfits .bits64)]
    exact fun h => absurd h.2 (by decide)

end EnkiNet
