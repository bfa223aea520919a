import TickReplay.Proofs.Json.Finite
import TickReplay.Proofs.Tick.Decoding

/- No payload holds a number that is not finite. -/
namespace TickReplay.Tick

theorem RealText.finite {x : Binary64} {text : List Char} (real : RealText x text) : x.isFinite := by
  obtain ⟨l, code, _, converts, rfl⟩ := real
  have bound := converts.finite
  have same : (Binary64.ofCode l.negative code).code = code := Nat.min_eq_left (Nat.le_of_lt bound)
  rw [Binary64.isFinite, same]
  exact decide_eq_true bound

theorem Items.member {item : Field → List Char → Prop} {first : Bool} {fields : List Field}
    {text : List Char} (items : Items item first fields text) {field : Field}
    (inside : field ∈ fields) : ∃ part, item field part := by
  induction items with
  | none => cases inside
  | next blank head others ih =>
    rcases List.mem_cons.mp inside with rfl | later
    · exact ⟨_, head⟩
    · exact ih later

theorem Payload.value {t : Tick} {text : List Char} (payload : Payload t text) (field : Field) :
    ∃ part, ValueText t field part := by
  have declared : field ∈ Field.all := by cases field <;> decide
  cases payload with
  | object frontBlank members once blank backBlank =>
    obtain ⟨_, member⟩ := members.member (once.mem_iff.mpr declared)
    cases member with
    | pair blank name colonBlank element =>
      cases element with
      | value blank value => exact ⟨_, value⟩
  | list frontBlank elements blank backBlank =>
    obtain ⟨_, element⟩ := elements.member declared
    cases element with
    | value blank value => exact ⟨_, value⟩

theorem Payload.finite {t : Tick} {text : List Char} (payload : Payload t text) :
    t.price.isFinite ∧ t.volume.isFinite := by
  obtain ⟨_, price⟩ := payload.value .price
  obtain ⟨_, volume⟩ := payload.value .volume
  exact ⟨RealText.finite price, RealText.finite volume⟩

theorem finite_of_ofWire {payload : String} {t : Tick} (decodes : ofWire payload = .ok t) :
    t.price.isFinite ∧ t.volume.isFinite := by
  have read := (ofWire_ok_iff payload t).mp decodes
  exact ((ofWireText_ok_iff _ t).mp read).finite

end TickReplay.Tick
