import EnkiNet.Atomicity

/-!
# A cleared packet

`clear` empties the buffer before it copies the header there, so the copy lands behind the
last element and the next write, which grows the buffer, fills it with zeros.  The cursors
and the header are those of a new packet; the buffer never is.
-/

namespace EnkiNet

open ByteStore Packet

/-- `clear` and `setHeader` copy the header over the first bytes of the buffer, if it has
them. -/
def CopiesInside (buffer : List Byte) : Prop := headerSize ≤ buffer.length

/-- **After `clear` the packet is a new one** with its header: to every program, and to the
packets that it is nested into.  The copy of the header, that of `clear` and that of a
`setHeader` right after it, stays in the buffer. -/
structure ClearedIsNew (p : Packet) : Prop where
  same : Same p.clear (ofHeader p.clear.header)
  header_bytes : p.clear.bytes.take headerSize = p.clear.header.toBytes
  nested : ∀ host, putPacket p.clear host = putPacket (ofHeader p.clear.header) host
  copy_inside : CopiesInside p.clear.bytes

namespace Packet

/-! ## What `clear` keeps and what it loses -/

/-- The cursors and the header are those of a new packet. -/
theorem clear_cursors (p : Packet) :
    p.clear.writeCursor = (ofHeader p.header).writeCursor ∧
      p.clear.readCursor = (ofHeader p.header).readCursor ∧
      p.clear.header = (ofHeader p.header).header := ⟨rfl, rfl, rfl⟩

theorem isEmpty_clear (p : Packet) : p.clear.isEmpty = false := rfl

theorem isEmpty_ofHeader (h : PacketHeader) : (ofHeader h).isEmpty = true :=
  decide_eq_true (PacketHeader.length_toBytes h)

/-- Whatever is written next, the header is gone: the packet goes out with zeros for it. -/
theorem clear_loses_header (p : Packet) {d : List Byte} (hd : d ≠ []) :
    ∃ p', serialize (some d) p.clear = (.ok (), p') ∧
      p'.bytes.take headerSize = List.replicate headerSize 0 := by
  refine ⟨_, rfl, ?_⟩
  have hpos : 0 < d.length := List.length_pos_of_ne_nil hd
  have hgrow : p.clear.bytesWritten + d.length > p.clear.bytes.length :=
    Nat.lt_of_lt_of_le hpos (Nat.le_add_left _ _)
  have hwritten : p.clear.bytesWritten = headerSize := rfl
  have hempty : p.clear.bytes = [] := rfl
  have hmin : min headerSize ((headerSize + d.length) * 2) = headerSize := by omega
  dsimp only
  rw [if_pos hgrow, hwritten, hempty]
  simp [overwrite, resize, hmin]

/-- The copy of an empty buffer has no storage, so a cleared packet cannot be nested. -/
theorem putPacket_clear (p host : Packet) :
    ∃ e host', putPacket p.clear host = (.error e, host') := by
  obtain ⟨s, hsize⟩ := putSize_ok 0 host
  exact ⟨_, _, Fallible.bind_ok hsize _⟩

theorem putPacket_ofHeader (h : PacketHeader) (host : Packet) :
    ∃ host', putPacket (ofHeader h) host = (.ok (), host') := by
  obtain ⟨s, hsize⟩ := putSize_ok h.toBytes.length host
  exact ⟨_, Fallible.bind_ok hsize _⟩

end Packet

/-- **No cleared packet is a new one.** -/
theorem clear_never_new (p : Packet) :
    p.clear.isEmpty ≠ (ofHeader p.clear.header).isEmpty ∧
      p.clear.bytes.take headerSize ≠ p.clear.header.toBytes ∧
      (∀ host, putPacket p.clear host ≠ putPacket (ofHeader p.clear.header) host) ∧
      ¬ CopiesInside p.clear.bytes ∧ ¬ ClearedIsNew p := by
  have hisEmpty : p.clear.isEmpty ≠ (ofHeader p.clear.header).isEmpty := by
    rw [isEmpty_clear, isEmpty_ofHeader]
    decide
  refine ⟨hisEmpty, List.cons_ne_nil _ _ |>.symm, fun host hsame => ?_, Nat.not_succ_le_zero _,
    fun hnew => ?_⟩
  · obtain ⟨e, host', hthrows⟩ := putPacket_clear p host
    obtain ⟨host'', hfits⟩ := putPacket_ofHeader p.clear.header host
    rw [hthrows, hfits] at hsame
    cases hsame
  · exact hisEmpty (congrArg View.isEmpty hnew.same.1)

/-- Already the default packet is no new one once it is cleared. -/
theorem cleared_default_not_new : (ofHeader {}).Arises ∧ ¬ ClearedIsNew (ofHeader {}) := by
  refine ⟨⟨.header {}, [], rfl⟩, fun hnew => ?_⟩
  have hisEmpty := congrArg View.isEmpty hnew.same.1
  exact absurd hisEmpty (by decide)

end EnkiNet
