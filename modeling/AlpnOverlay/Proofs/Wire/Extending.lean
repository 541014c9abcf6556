import AlpnOverlay.Proofs.Wire.Grammar

/-!
Adding an extension to a hello and taking it out again. The hello comes back as it was, except that
an extensions block that held nothing is gone.
-/
namespace AlpnOverlay.Wire.Hello

variable {h : Hello} {sender : Role} {message : Bytes} {type : UInt16} {x : Extension}

/-- The extensions of other types, in their order. -/
def others (h : Hello) (type : UInt16) : List Extension :=
  (h.extensions.getD []).filter fun x => x.type != type

/-- The hello with these extensions; when there are none, it has no block. -/
def withExtensions (h : Hello) : List Extension → Hello
  | [] => { h with extensions := none }
  | es => { h with extensions := some es }

/-- The hello without an extensions block that holds nothing. -/
def compact (h : Hello) : Hello :=
  if h.extensions = some [] then { h with extensions := none } else h

theorem compact_of_ne (he : h.extensions ≠ some []) : h.compact = h := if_neg he

/-- A block that holds nothing is two zero bytes at the end of the message. -/
theorem body_of_empty (he : h.extensions = some []) : h.body = h.compact.body ++ [0, 0] := by
  rw [compact, if_pos he]
  simp only [body, encodeBlock, he, List.append_nil]
  rfl

theorem length_encode_compact_le (h : Hello) : h.compact.encode.length ≤ h.encode.length := by
  by_cases he : h.extensions = some []
  · rw [length_encode, length_encode, body_of_empty he, List.length_append]
    omega
  · exact Nat.le_of_eq (by rw [compact_of_ne he])

theorem filter_of_without (ha : h.has type = false) :
    (h.extensions.getD []).filter (fun x => x.type != type) = h.extensions.getD [] := by
  rw [List.filter_eq_self]
  intro x hx
  simp only [has, find?, Option.isSome_eq_false_iff, Option.isNone_iff_eq_none,
    List.find?_eq_none] at ha
  simpa using ha x hx

/-- An extension of a new type is the only one that is taken out with it. -/
theorem remove_add (ha : h.has x.type = false) :
    (h.add x).remove x.type = h.compact := by
  have hkept : ((h.add x).extensions.getD []).filter (fun y => y.type != x.type) =
      h.extensions.getD [] := by
    have hx : (h.add x).extensions.getD [] = h.extensions.getD [] ++ [x] := rfl
    rw [hx, List.filter_append, filter_of_without ha]
    simp
  rw [remove, hkept]
  obtain ⟨_, _, _, _, _, _, extensions⟩ := h
  rcases extensions with _ | _ | ⟨y, es⟩
  · rfl
  · rfl
  · exact (if_neg (by simp)).symm

theorem remove_eq (h : Hello) (type : UInt16) : h.remove type = h.withExtensions (h.others type) :=
  rfl

theorem has_eq_false_iff : h.has type = false ↔ ∀ x ∈ h.extensions.getD [], x.type ≠ type := by
  simp only [has, find?, Option.isSome_eq_false_iff, Option.isNone_iff_eq_none,
    List.find?_eq_none, beq_iff_eq, ne_eq]

/-- An extension is added exactly when its data fit and the longer block does. -/
theorem writeWith_succeeds_iff (hw : h.WellFormed) :
    (∃ longer, h.writeWith x = .ok longer) ↔
      x.data.length ≤ maxLength16 ∧
      (Extension.encodeAll (h.extensions.getD [])).length + 4 + x.data.length ≤ maxLength16 := by
  by_cases hd : x.data.length ≤ maxLength16
  · rw [writeWith_eq hw hd, Extension.size, Nat.add_assoc]
    split
    · rename_i hb
      exact iff_of_true ⟨_, rfl⟩ ⟨hd, hb⟩
    · rename_i hb
      refine iff_of_false ?_ fun hfits => hb hfits.2
      rintro ⟨_, hok⟩
      cases hok
  · refine iff_of_false ?_ fun hfits => hd hfits.1
    rintro ⟨_, hok⟩
    rw [writeWith, if_pos (Nat.not_le.1 hd)] at hok
    cases hok

/-- The length of the message is never what keeps an extension out. -/
theorem writeWith_error {e : Error} (hw : h.WellFormed) (he : h.writeWith x = .error e) :
    e = .malformed .longExtension ∨ e = .malformed .longExtensionBlock := by
  by_cases hd : x.data.length ≤ maxLength16
  · rw [writeWith_eq hw hd] at he
    split at he
    · cases he
    · cases he
      exact .inr rfl
  · rw [writeWith, if_pos (Nat.not_le.1 hd)] at he
    cases he
    exact .inl rfl

theorem writeWithout_eq (hw : h.WellFormed) (type : UInt16) :
    h.writeWithout type = .ok (if h.has type then some (h.remove type).encode else none) := by
  rw [writeWithout]
  split
  · rw [write_of_wellFormed (wellFormed_remove hw)]
    rfl
  · rfl

theorem has_add (h : Hello) (x : Extension) : (h.add x).has x.type = true := by
  rw [← Bool.not_eq_false, has_eq_false_iff]
  intro hnone
  exact hnone x (List.mem_append_right _ (List.mem_singleton_self x)) rfl

/-- Adding and removing an extension leaves the hello, without a block that holds nothing. -/
theorem writeWithout_add (hw : (h.add x).WellFormed) (ha : h.has x.type = false) :
    (h.add x).writeWithout x.type = .ok (some h.compact.encode) := by
  rw [writeWithout_eq hw, if_pos (has_add h x), remove_add ha]

theorem sender_compact (h : Hello) : h.compact.sender = h.sender := by
  rw [compact]
  split
  · rfl
  · rfl

theorem parse_remove (hw : h.WellFormed) (type : UInt16) :
    parse h.sender (h.remove type).encode = .ok (h.withExtensions (h.others type)) := by
  rw [← remove_eq, ← sender_remove h type]
  exact parse_encode (wellFormed_remove hw)

/-- Extensions are added and removed exactly. An extension is added when it fits, and is the last
one then; those of a type are removed all at once, and nothing else changes. What was added under a
new type and is removed again leaves the message byte for byte, unless that had a block that held
nothing: the two bytes of its length are gone then. -/
theorem extension_edits_exact (hp : parse sender message = .ok h) (x : Extension) (type : UInt16) :
    ((∃ longer, h.writeWith x = .ok longer) ↔
      x.data.length ≤ maxLength16 ∧
      (Extension.encodeAll (h.extensions.getD [])).length + 4 + x.data.length ≤ maxLength16) ∧
    (∀ e, h.writeWith x = .error e →
      e = .malformed .longExtension ∨ e = .malformed .longExtensionBlock) ∧
    (∀ longer, h.writeWith x = .ok longer →
      parse sender longer = .ok { h with extensions := some (h.extensions.getD [] ++ [x]) }) ∧
    (∃ shorter, h.writeWithout type = .ok shorter ∧
      (shorter = none ↔ ∀ y ∈ h.extensions.getD [], y.type ≠ type) ∧
      ∀ rest, shorter = some rest → parse sender rest = .ok (h.withExtensions (h.others type))) ∧
    ((∀ y ∈ h.extensions.getD [], y.type ≠ x.type) →
      ∀ longer grown, h.writeWith x = .ok longer → parse sender longer = .ok grown →
        ∃ back, grown.writeWithout x.type = .ok (some back) ∧
          (h.extensions ≠ some [] → back = message) ∧
          (h.extensions = some [] → ∃ body, back = Message.frame (helloType sender) body ∧
            message = Message.frame (helloType sender) (body ++ [0, 0]))) := by
  obtain ⟨hw, rfl, rfl⟩ := parse_eq_ok_iff.1 hp
  refine ⟨writeWith_succeeds_iff hw, fun e => writeWith_error hw, ?_, ?_, ?_⟩
  · intro longer hl
    obtain ⟨hadd, rfl⟩ := (writeWith_eq_ok_iff hw).1 hl
    exact parse_encode hadd
  · refine ⟨_, writeWithout_eq hw type, ?_, ?_⟩
    · rw [← has_eq_false_iff]
      cases h.has type with
      | true => exact iff_of_false (Option.some_ne_none _) Bool.noConfusion
      | false => exact iff_of_true rfl rfl
    · intro rest hrest
      split at hrest
      · cases hrest
        exact parse_remove hw type
      · cases hrest
  · intro hnew longer grown hl hg
    obtain ⟨hadd, rfl⟩ := (writeWith_eq_ok_iff hw).1 hl
    cases (parse_encode hadd).symm.trans hg
    refine ⟨_, writeWithout_add hadd (has_eq_false_iff.2 hnew), ?_, ?_⟩
    · intro hne
      rw [compact_of_ne hne]
    · intro hempty
      refine ⟨h.compact.body, ?_, ?_⟩
      · rw [encode, sender_compact]
      · rw [encode, body_of_empty hempty]

/-- The block that held nothing does not come back. -/
theorem extension_edits_exact_nothing :
    let x : Extension := ⟨Extension.alpn, [0, 3, 2, 0x68, 0x32]⟩
    (∃ longer, blockOfNothing.writeWith x = .ok longer) ∧
      ∃ back, (blockOfNothing.add x).writeWithout x.type = .ok (some back) ∧
        back.length + 2 = blockOfNothing.encode.length := by
  intro x
  have hp : parse .server blockOfNothing.encode = .ok blockOfNothing :=
    parse_encode (h := blockOfNothing) ⟨rfl, Nat.zero_le _, ⟨rfl, rfl⟩, Nat.zero_le _⟩
  obtain ⟨hsucceeds, -, hparses, -, hback⟩ := extension_edits_exact hp x Extension.alpn
  obtain ⟨longer, hl⟩ := hsucceeds.2 ⟨by decide, by decide⟩
  obtain ⟨back, hb, -, hempty⟩ := hback (by decide) longer _ hl (hparses longer hl)
  obtain ⟨body, rfl, hmessage⟩ := hempty rfl
  refine ⟨⟨longer, hl⟩, _, hb, ?_⟩
  rw [hmessage, Message.length_frame, Message.length_frame, List.length_append]
  rfl

end AlpnOverlay.Wire.Hello
