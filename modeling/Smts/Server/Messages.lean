import Smts.Server.Callbacks

/-!
# Server — what the server's own packets carry

The packets without a payload are one buffer of their fields. A response says
how it went in the word behind its head.
-/

namespace Smts

/-- The status word of a response, the four bytes behind the 20 of its head. -/
def wireStatus (bytes : List Byte) : BitVec 32 := BigEndian.value 32 ((bytes.drop 20).take 4)

theorem serFixed_append {ν : Type} (vals : Values ν) (F G : List (Field ν)) :
    serFixed vals (F ++ G) = serFixed vals F ++ serFixed vals G :=
  List.flatMap_append ..

theorem wireStatus_serFixed (vals : Values NvmpName) (fs : List NvmpField) :
    wireStatus (serFixed vals (protocolHeadFiled ++ status :: fs)) = vals status := by
  have hlen : (serFixed vals protocolHeadFiled).length = 20 := length_serFixed ..
  have hcons : serFixed vals (status :: fs)
      = BigEndian.bytes 4 (vals status) ++ serFixed vals fs := rfl
  rw [wireStatus, serFixed_append, List.drop_left' hlen, hcons,
    List.take_left' (BigEndian.length_bytes 4 _)]
  exact BigEndian.value_bytes (n := 4) _

/-- A packet without a payload sends the bytes of its stamped fields, one after
the other. -/
theorem encode_flat_wire {ν : Type} [DecidableEq ν] (h : Heap) {t : Cmd ν}
    (hF : ∀ f ∈ t.type.fields, f.type.isRef = false) (hne : t.type.fields ≠ [])
    (hlen : prefixLen t.type.fields < 2 ^ 31) :
    ∃ h' t', t.encode h = some (h', t') ∧
      t'.wire h' = some (serFixed t.stamped.vals t.type.fields) := by
  have hload := loadBytes_headSlot h (serFixed t.stamped.vals t.type.fields)
  rw [length_serFixed] at hload
  have hR : NullRefs t.vals ([] : List (Field ν)) := fun f hf => absurd hf List.not_mem_nil
  refine ⟨_, _, encode_flat h t (List.append_nil _).symm hF hne hR, ?_⟩
  simp only [Cmd.wire, Option.bind_eq_bind, Option.bind_some, List.take_succ_cons,
    List.take_zero, List.mapM_cons, List.mapM_nil, id_eq, Heap.gather, Option.pure_def,
    headSlot_len h hlen, headSlot_base, hload, List.append_nil]

namespace Server

theorem encodeNew_flat (w : Server) {t : NvmpCmd} (hT : t.type ∈ payloadFreeTypes) :
    ∃ w', w.encodeNew t = some w' ∧
      (w'.cmds w.nCmds).wire w'.heap = some (serFixed t.stamped.vals t.type.fields) := by
  obtain ⟨hwf, hF⟩ := payloadFree_spec hT
  have hhead : t.type.fields = t.type.head := by
    have hall : t.type.fields.all (fun f => !f.type.isRef) = true :=
      List.all_eq_true.mpr fun f hf => by simp [hF f hf]
    exact (List.takeWhile_eq_self_iff.mpr fun f hf => List.all_eq_true.mp hall f hf).symm
  have hne : t.type.fields ≠ [] := hhead ▸ hwf.head_ne_nil
  have hnarrow := hwf.narrow
  obtain ⟨h', t', henc, hwire⟩ := encode_flat_wire w.heap hF hne (by rw [hhead]; omega)
  refine ⟨(w.setHeap h').addCmd t', by rw [encodeNew, henc]; rfl, ?_⟩
  simpa using hwire

/-! ## Responses -/

/-- The bytes that `uv_write` is given for a `common_res` with the status `r`. -/
def ackBytes (w : Server) (r : Int) : List Byte :=
  serFixed (Cmd.init commonRes (Function.update (w.garbage w.nCmds) status
    (BitVec.ofInt 32 r))).stamped.vals commonRes.fields

/-- The status put in before the struct is initialised does not survive. -/
theorem wireStatus_ackBytes (w : Server) (r : Int) : wireStatus (w.ackBytes r) = 0 := by
  have hfields : commonRes.fields = protocolHeadFiled ++ status :: [] := rfl
  rw [ackBytes, hfields, wireStatus_serFixed, Cmd.stamped_vals _ (by decide) (by decide)]
  rfl

/-- The bytes that `uv_write` is given for a `preview_cmd_res` with the status
`r`. -/
def previewResBytes (w : Server) (r : Int) : List Byte :=
  serFixed (w.previewRes r).stamped.vals previewCmdRes.fields

theorem wireStatus_previewResBytes (w : Server) (r : Int) :
    wireStatus (w.previewResBytes r) = BitVec.ofInt 32 r := by
  have hfields : previewCmdRes.fields
      = protocolHeadFiled ++ status :: [brightness, contrast, saturation, hue] := rfl
  rw [previewResBytes, hfields, wireStatus_serFixed, Cmd.stamped_vals _ (by decide) (by decide)]
  simp [previewRes, Cmd.set]

end Server

end Smts
