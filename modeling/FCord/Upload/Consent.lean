import FCord.Data.JsonRoundTrip

/-!
# The stored cross-border consent

Speech-to-text sends a recording abroad, so the service reads the consent from the Keychain
before it asks for a transcription.  `hasCrossBorderConsent` is that check for an entry of any
content, and `hasCrossBorderConsent_iff` says exactly which entries pass it.
-/

namespace FCord

/-- What `Keychain.getGenericPassword` finds under the consent service. -/
inductive ConsentEntry where
  /-- There is no entry. -/
  | missing
  /-- The call throws. -/
  | unreadable
  /-- An entry with this password. -/
  | stored (password : String)
  deriving DecidableEq, Repr

/-- `hasCrossBorderConsent`: everything that goes wrong counts as no consent. -/
def hasCrossBorderConsent : ConsentEntry → Bool
  | .missing => false
  | .unreadable => false
  | .stored password =>
    match Json.parse password with
    | none => false
    | some consent =>
      match consent.field? "cross_border" with
      | some (some (.bool true)) => true
      | _ => false

/-- The entry that `saveCrossBorderConsent` writes. -/
def saveCrossBorderConsent (now : ℕ) (agreed : Bool) : ConsentEntry :=
  .stored (Json.stringify
    (.obj [("cross_border", .bool agreed), ("agreed_at", .num (.ofInt now))]))

/-- The entry is the text of an object whose `cross_border` is `true`. -/
def GivesConsent (entry : ConsentEntry) : Prop :=
  ∃ password members, entry = .stored password ∧ Json.parse password = some (.obj members) ∧
    Json.lookup members "cross_border" = some (.bool true)

/-- **The consent check accepts nothing but a stored `cross_border: true`.** -/
theorem hasCrossBorderConsent_iff {entry : ConsentEntry} :
    hasCrossBorderConsent entry = true ↔ GivesConsent entry := by
  constructor
  · intro h
    cases entry with
    | missing => cases h
    | unreadable => cases h
    | stored password =>
      simp only [hasCrossBorderConsent] at h
      split at h
      · cases h
      · rename_i consent hparse
        cases consent with
        | obj members =>
          simp only [Json.field?] at h
          split at h
          · rename_i hfield
            exact ⟨password, members, rfl, hparse, by simpa using hfield⟩
          · cases h
        | _ => cases h
  · rintro ⟨password, members, rfl, hparse, hfield⟩
    simp [hasCrossBorderConsent, hparse, Json.field?, hfield]

/-- What was saved last is what the check reads. -/
theorem hasCrossBorderConsent_save (now : ℕ) (agreed : Bool) :
    hasCrossBorderConsent (saveCrossBorderConsent now agreed) = agreed := by
  cases agreed <;>
    simp [hasCrossBorderConsent, saveCrossBorderConsent, Json.parse_stringify, Json.field?,
      Json.lookup]

end FCord
