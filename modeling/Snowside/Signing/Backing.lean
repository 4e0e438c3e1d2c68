import Snowside.Signing.Vm

/-! What a backend has in its caches and its store is backed, and so is what it signs. -/

set_option autoImplicit false

namespace Snowside.Signing

open WarpMessage

variable {Message ID Hash Signature : Type} [WarpMessage Message ID Hash]

/-- The process was started with the message. -/
def Memory.Configured (memory : Memory Message ID Signature) (message : Message) : Prop :=
  ∃ encoded ∈ memory.warpOffChainMessages, parseUnsignedMessage encoded = some message

/-- Every message of the store and the caches is emitted or configured, and a signature is one of the signer. -/
structure Backend.Sound (emitted : Message → Prop) (signed : List (Message × Option Nat))
    (backend : Backend Message ID Signature) : Prop where
  stored : ∀ key encoded, backend.db key = some encoded →
    ∃ message : Message, key = messageID message ∧ encoded = bytes message ∧ emitted message
  offchain : ∀ entry ∈ backend.memory.offchainAddressedCallMsgs, entry.1 = messageID entry.2 ∧ backend.memory.Configured entry.2
  messages : ∀ entry ∈ backend.memory.messageCache.entries,
    entry.1 = messageID entry.2 ∧ (emitted entry.2 ∨ backend.memory.Configured entry.2)
  signatures : ∀ entry ∈ backend.memory.signatureCache.entries, ∃ message : Message, entry.1 = messageID message ∧
    backend.memory.warpSigner message = some entry.2 ∧ ∃ uptime, (message, uptime) ∈ signed

/-- Nothing but the caches changes. -/
structure Backend.Kept (before after : Backend Message ID Signature) : Prop where
  db : after.db = before.db
  warpSigner : after.memory.warpSigner = before.memory.warpSigner
  configured : after.memory.warpOffChainMessages = before.memory.warpOffChainMessages

theorem Backend.Kept.same (backend : Backend Message ID Signature) : backend.Kept backend := ⟨rfl, rfl, rfl⟩

section

variable [DecidableEq ID] {emitted : Message → Prop} {signed : List (Message × Option Nat)}
  {backend : Backend Message ID Signature} {context : Context ID} {outside : Outside ID Hash}

/-! ## The start -/

theorem initOffChainMessages_parsed {encodings : List Bytes} {index : Nat} {before after : List (ID × Message)}
    (filled : initOffChainMessages context index encodings before = .ok after) :
    ∀ entry ∈ after, entry ∈ before ∨
      entry.1 = messageID entry.2 ∧ ∃ encoded ∈ encodings, parseUnsignedMessage encoded = some entry.2 := by
  induction encodings generalizing index before with
  | nil =>
    cases filled
    exact fun entry member => .inl member
  | cons encoded rest ih =>
    unfold initOffChainMessages at filled
    split at filled
    · cases filled
    · next message parsed =>
      repeat' split at filled
      · cases filled
      · cases filled
      · cases filled
      · intro entry member
        rcases ih filled entry member with known | ⟨named, other, inside, read⟩
        · rcases List.mem_cons.mp known with rfl | known
          · exact .inr ⟨rfl, encoded, List.mem_cons_self, parsed⟩
          · exact .inl known
        · exact .inr ⟨named, other, List.mem_cons_of_mem _ inside, read⟩

/-- A new backend has nothing but the store and the configured messages. -/
theorem Backend.Sound.newBackend {warpSigner : Message → Option Signature} {offchainMessages : List Bytes}
    {memory : Memory Message ID Signature} {db : ID → Option Bytes}
    (made : newBackend context warpSigner offchainMessages = .ok memory)
    (stored : ∀ key encoded, db key = some encoded →
      ∃ message : Message, key = messageID message ∧ encoded = bytes message ∧ emitted message) :
    memory.warpSigner = warpSigner ∧ Backend.Sound emitted [] ⟨db, memory⟩ := by
  unfold Signing.newBackend at made
  obtain ⟨offchain, filled, made⟩ := Checked.bind_eq_ok.mp made
  cases made
  refine ⟨rfl, stored, fun entry member => ?_, fun entry member => (by cases member), fun entry member => (by cases member)⟩
  rcases initOffChainMessages_parsed filled entry member with impossible | ⟨named, found⟩
  · cases impossible
  · exact ⟨named, found⟩

/-! ## Messages -/

namespace Backend.Sound

variable (sound : backend.Sound emitted signed)

include sound

/-- What is found is the message of the id, and it is emitted or configured. -/
theorem getMessage (key : ID) : (backend.getMessage key).2.Sound emitted signed ∧
    backend.Kept (backend.getMessage key).2 ∧ ∀ message, (backend.getMessage key).1 = .ok message →
      messageID message = key ∧ (emitted message ∨ backend.memory.Configured message) := by
  unfold Backend.getMessage
  split
  · next message used got =>
    have known := sound.messages _ (Lru.mem_of_get got)
    have used_known : ∀ entry ∈ used.entries, entry ∈ backend.memory.messageCache.entries := by
      intro entry member
      apply Lru.mem_get key
      rw [got]
      exact member
    have used_sound := fun entry member => sound.messages entry (used_known entry member)
    refine ⟨{ sound with messages := used_sound }, ⟨rfl, rfl, rfl⟩, ?_⟩
    rintro other ⟨⟩
    exact ⟨known.1.symm, known.2⟩
  · split
    · next message found =>
      have known := sound.offchain _ (Lru.mem_of_lookup found)
      refine ⟨sound, .same backend, ?_⟩
      rintro other ⟨⟩
      exact ⟨known.1.symm, .inr known.2⟩
    · split
      · exact ⟨sound, .same backend, fun _ impossible => (by cases impossible)⟩
      · next encoded present =>
        obtain ⟨message, named, rfl, is_emitted⟩ := sound.stored _ _ present
        rw [parse_bytes]
        refine ⟨{ sound with messages := fun entry member => ?_ }, ⟨rfl, rfl, rfl⟩, ?_⟩
        · rcases Lru.mem_put member with rfl | known
          · exact ⟨named, .inl is_emitted⟩
          · exact sound.messages entry known
        · rintro other ⟨⟩
          exact ⟨named.symm, .inl is_emitted⟩

/-- A message that passes is known, or its payload passes. -/
theorem verify (outside : Outside ID Hash) (message : Message) : (backend.verify outside message).2.Sound emitted signed ∧
    backend.Kept (backend.verify outside message).2 ∧ ((backend.verify outside message).1 = .ok () →
      emitted message ∨ backend.memory.Configured message ∨ verifyPayload outside message = .ok ()) := by
  obtain ⟨after_sound, kept, found⟩ := sound.getMessage (messageID message)
  unfold Backend.verify
  split
  · next other after got =>
    rw [got] at after_sound kept found
    obtain ⟨same, known⟩ := found other rfl
    rw [messageID_injective same] at known
    exact ⟨after_sound, kept, fun _ => known.imp_right .inl⟩
  · next got =>
    rw [got] at after_sound kept
    exact ⟨after_sound, kept, fun impossible => (by cases impossible)⟩
  · next got =>
    rw [got] at after_sound kept
    exact ⟨after_sound, kept, fun passed => .inr (.inr passed)⟩

omit [DecidableEq ID] sound in
theorem mono {more : List (Message × Option Nat)} (sound : backend.Sound emitted signed)
    (longer : ∀ entry ∈ signed, entry ∈ more) : backend.Sound emitted more :=
  { sound with
    signatures := fun entry member => by
      obtain ⟨message, named, signs, uptime, inside⟩ := sound.signatures entry member
      exact ⟨message, named, signs, uptime, longer _ inside⟩ }

omit [DecidableEq ID] in
theorem weaken {weaker : Message → Prop} (weakens : ∀ message, emitted message → weaker message) :
    backend.Sound weaker signed :=
  { sound with
    stored := fun key encoded found => by
      obtain ⟨message, named, same, is_emitted⟩ := sound.stored key encoded found
      exact ⟨message, named, same, weakens message is_emitted⟩
    messages := fun entry member => (sound.messages entry member).imp_right fun known => known.imp_left (weakens entry.2) }

/-- A message that is emitted may be put into the store. -/
theorem put {message : Message} (is_emitted : emitted message) : Backend.Sound emitted signed
    { backend with db := Function.update backend.db (messageID message) (some (bytes message)) } :=
  { sound with
    stored := fun key encoded found => by
      replace found : Function.update backend.db (messageID message) (some (bytes message)) key = some encoded := found
      by_cases same : key = messageID message
      · rw [same, Function.update_self] at found
        exact ⟨message, same, (Option.some.inj found).symm, is_emitted⟩
      · rw [Function.update_of_ne same] at found
        exact sound.stored key encoded found }

theorem sign {message : Message} {sig : Signature} (signs : backend.memory.warpSigner message = some sig) (uptime : Option Nat) :
    Backend.Sound emitted (signed ++ [(message, uptime)]) { backend with memory :=
      { backend.memory with signatureCache := backend.memory.signatureCache.put (messageID message) sig } } :=
  { sound with
    signatures := fun entry member => by
      rcases Lru.mem_put member with rfl | known
      · exact ⟨message, rfl, signs, uptime, List.mem_append_right _ (List.mem_singleton_self _)⟩
      · exact (sound.mono fun _ => List.mem_append_left _).signatures entry known }

end Backend.Sound

/-! ## Signatures -/

/-- A message that is added is in the store and signed. -/
theorem Backend.addMessage_eq_ok {message : Message} {sig : Signature} {after : Backend Message ID Signature}
    (added : (backend.addMessage message : Except (SignatureError ID Hash) Signature × _) = (.ok sig, after)) :
    backend.memory.warpSigner message = some sig ∧ after =
      { db := Function.update backend.db (messageID message) (some (bytes message))
        memory := { backend.memory with signatureCache := backend.memory.signatureCache.put (messageID message) sig } } := by
  unfold Backend.addMessage Backend.signMessage at added
  split at added
  · cases added
  · next signs =>
    cases added
    exact ⟨signs, rfl⟩

omit [DecidableEq ID] in
/-- A payload passes for an accepted block, or for an uptime that was measured. -/
theorem verifyPayload_eq_ok {message : Message} (passed : verifyPayload outside message = .ok ()) :
    (∃ blockID, parsePayload message = some (.hash blockID) ∧ outside.getAcceptedBlock blockID = true) ∨
      ∃ claim total, uptimeClaim message = some claim ∧ measured outside.getUptime message = some total ∧
        claim.totalUptime ≤ total := by
  unfold verifyPayload at passed
  split at passed
  · cases passed
  · next sourceAddress payload read =>
    right
    unfold verifyOffchainAddressedCall at passed
    split at passed
    · cases passed
    · next claim parsed =>
      split at passed
      · cases passed
      · next unsourced =>
        have claimed : uptimeClaim message = some claim := by
          unfold uptimeClaim
          rw [read]
          dsimp only
          rw [if_pos (not_not.mp unsourced), parsed]
        unfold verifyUptimeMessage at passed
        split at passed
        · cases passed
        · next total asked =>
          split at passed
          · cases passed
          · next enough =>
            refine ⟨claim, total, claimed, ?_, Nat.le_of_not_lt enough⟩
            unfold measured
            rw [claimed, Option.bind_some, asked]
            rfl
  · next blockID read =>
    left
    unfold verifyBlockMessage at passed
    split at passed
    · next found => exact ⟨blockID, read, found⟩
    · cases passed

/-- How a request for the signature of a message ends: it was signed before, or it passes the check, or it is refused. -/
inductive Outcome (emitted : Message → Prop) (signed : List (Message × Option Nat)) (backend : Backend Message ID Signature)
    (outside : Outside ID Hash) (message : Message) (uptime : Option Nat) :
    Except (SignatureError ID Hash) Signature × Backend Message ID Signature → Prop where
  | cached {sig : Signature} {after : Backend Message ID Signature} : after.Sound emitted signed → backend.Kept after →
      (backend.memory.signatureCache.get (messageID message)).1.isNone = false → backend.memory.warpSigner message = some sig →
      (∃ uptime, (message, uptime) ∈ signed) → Outcome emitted signed backend outside message uptime (.ok sig, after)
  | signed {sig : Signature} {after : Backend Message ID Signature} : after.Sound emitted (signed ++ [(message, uptime)]) →
      backend.Kept after → (backend.memory.signatureCache.get (messageID message)).1.isNone = true →
      backend.memory.warpSigner message = some sig →
      (emitted message ∨ backend.memory.Configured message ∨ verifyPayload outside message = .ok ()) →
      Outcome emitted signed backend outside message uptime (.ok sig, after)
  | refused {cause : SignatureError ID Hash} {after : Backend Message ID Signature} : after.Sound emitted signed →
      backend.Kept after → Outcome emitted signed backend outside message uptime (.error cause, after)

/-- A message that passed the check is signed, if the signer does so. -/
theorem Backend.Kept.signMessage {message : Message} {after : Backend Message ID Signature} (kept : backend.Kept after)
    (after_sound : after.Sound emitted signed) (uptime : Option Nat)
    (absent : (backend.memory.signatureCache.get (messageID message)).1.isNone = true)
    (passed : emitted message ∨ backend.memory.Configured message ∨ verifyPayload outside message = .ok ()) :
    Outcome emitted signed backend outside message uptime (after.signMessage message) := by
  unfold Backend.signMessage
  split
  · exact .refused after_sound kept
  · next sig signs =>
    refine .signed (after_sound.sign signs uptime) ⟨kept.db, kept.warpSigner, kept.configured⟩ absent ?_ passed
    rw [← kept.warpSigner]
    exact signs

namespace Backend.Sound

variable (sound : backend.Sound emitted signed)

include sound

theorem cached {message : Message} {sig : Signature} {used : Lru ID Signature} (uptime : Option Nat)
    (got : backend.memory.signatureCache.get (messageID message) = (some sig, used)) :
    Outcome emitted signed backend outside message uptime
      (.ok sig, { backend with memory := { backend.memory with signatureCache := used } }) := by
  obtain ⟨other, named, signs, found⟩ := sound.signatures _ (Lru.mem_of_get got)
  obtain rfl := messageID_injective named
  have used_known : ∀ entry ∈ used.entries, entry ∈ backend.memory.signatureCache.entries := by
    intro entry member
    apply Lru.mem_get (messageID message)
    rw [got]
    exact member
  refine .cached ?_ ⟨rfl, rfl, rfl⟩ (by rw [got]; rfl) signs found
  exact { sound with signatures := fun entry member => sound.signatures entry (used_known entry member) }

theorem getMessageSignature (message : Message) (uptime : Option Nat) :
    Outcome emitted signed backend outside message uptime (backend.getMessageSignature outside message) := by
  unfold Backend.getMessageSignature
  split
  · next sig used got => exact sound.cached uptime got
  · next got =>
    obtain ⟨after_sound, kept, passes⟩ := sound.verify outside message
    split
    · next verified =>
      rw [verified] at after_sound kept
      exact .refused after_sound kept
    · next verified =>
      rw [verified] at after_sound kept passes
      exact kept.signMessage after_sound uptime (by rw [got]; rfl) (passes rfl)

theorem getBlockSignature {blockID : Hash} {message : Message} (uptime : Option Nat)
    (made : newHashMessage context.networkID context.chainID blockID = some message) :
    Outcome emitted signed backend outside message uptime (backend.getBlockSignature context outside blockID) := by
  unfold Backend.getBlockSignature
  rw [made]
  dsimp only
  split
  · next sig used got => exact sound.cached uptime got
  · next got =>
    split
    · exact .refused sound (.same backend)
    · next verified =>
      refine (Backend.Kept.same backend).signMessage sound uptime (by rw [got]; rfl) (.inr (.inr ?_))
      unfold verifyPayload
      rw [payload_newHashMessage _ _ _ _ made]
      exact verified

/-- A message of the store is signed whenever it is asked for, if the signer does so. -/
theorem getMessageSignature_of_stored (outside : Outside ID Hash) {message : Message}
    (stored : backend.db (messageID message) = some (bytes message))
    (signs : (backend.memory.warpSigner message).isSome) : ∃ sig, (backend.getMessageSignature outside message).1 = .ok sig := by
  have found : ∃ found, (backend.getMessage (messageID message)).1 = .ok found := by
    unfold Backend.getMessage
    split
    · exact ⟨_, rfl⟩
    · split
      · exact ⟨_, rfl⟩
      · rw [stored]
        dsimp only
        rw [parse_bytes]
        exact ⟨_, rfl⟩
  have passes : (backend.verify outside message).1 = .ok () := by
    obtain ⟨found, got⟩ := found
    unfold Backend.verify
    split
    · rfl
    · next failed =>
      rw [failed] at got
      cases got
    · next failed =>
      rw [failed] at got
      cases got
  unfold Backend.getMessageSignature
  split
  · exact ⟨_, rfl⟩
  · obtain ⟨-, kept, -⟩ := sound.verify outside message
    split
    · next verified =>
      rw [verified] at passes
      cases passes
    · next after verified =>
      rw [verified] at kept
      obtain ⟨sig, signed⟩ := Option.isSome_iff_exists.mp signs
      rw [← kept.warpSigner] at signed
      unfold Backend.signMessage
      rw [signed]
      exact ⟨sig, rfl⟩

end Backend.Sound

/-! ## Answers -/

/-- What is new after a request. -/
structure Answered (emitted : Message → Prop) (signed : List (Message × Option Nat)) (backend : Backend Message ID Signature)
    (context : Context ID) (outside : Outside ID Hash) (request : Request Message ID Hash) : Prop where
  sound : (backend.answer context outside request).2.Sound emitted (signed ++ backend.newlySigned context outside request)
  kept : backend.Kept (backend.answer context outside request).2
  signature : ∀ sig, (backend.answer context outside request).1 = .signature (.ok sig) → ∃ message,
    request.signs context = some message ∧ backend.memory.warpSigner message = some sig ∧
      ∃ uptime, (message, uptime) ∈ signed ++ backend.newlySigned context outside request
  new : ∀ entry ∈ backend.newlySigned context outside request, entry.2 = measured outside.getUptime entry.1 ∧
    (emitted entry.1 ∨ backend.memory.Configured entry.1 ∨ verifyPayload outside entry.1 = .ok ())

theorem Outcome.answered {request : Request Message ID Hash} {message : Message} (signs : request.signs context = some message)
    {result : Except (SignatureError ID Hash) Signature × Backend Message ID Signature}
    (answers : backend.answer context outside request = (.signature result.1, result.2))
    (outcome : Outcome emitted signed backend outside message (measured outside.getUptime message) result) :
    Answered emitted signed backend context outside request := by
  cases outcome with
  | cached sound kept known signer found =>
    have new : backend.newlySigned context outside request = [] := by
      unfold Backend.newlySigned
      rw [signs, answers]
      simp [known]
    constructor
    · rw [new, answers, List.append_nil]
      exact sound
    · rw [answers]
      exact kept
    · rw [new, answers, List.append_nil]
      rintro other ⟨⟩
      exact ⟨message, signs, signer, found⟩
    · rw [new]
      exact fun entry impossible => (by cases impossible)
  | signed sound kept absent signer passed =>
    have new : backend.newlySigned context outside request = [(message, measured outside.getUptime message)] := by
      unfold Backend.newlySigned
      rw [signs, answers]
      simp [absent]
    constructor
    · rw [new, answers]
      exact sound
    · rw [answers]
      exact kept
    · rw [new, answers]
      rintro other ⟨⟩
      exact ⟨message, signs, signer, _, List.mem_append_right _ (List.mem_singleton_self _)⟩
    · rw [new]
      intro entry member
      rw [List.mem_singleton.mp member]
      exact ⟨rfl, passed⟩
  | refused sound kept =>
    have new : backend.newlySigned context outside request = [] := by
      unfold Backend.newlySigned
      rw [signs, answers]
    constructor
    · rw [new, answers, List.append_nil]
      exact sound
    · rw [answers]
      exact kept
    · rw [answers]
      exact fun other impossible => (by cases impossible)
    · rw [new]
      exact fun entry impossible => (by cases impossible)

/-- A request that asks for no signature. -/
theorem Answered.unsigned {request : Request Message ID Hash} (signs : request.signs context = none)
    (sound : (backend.answer context outside request).2.Sound emitted signed)
    (kept : backend.Kept (backend.answer context outside request).2)
    (refused : ∀ sig, (backend.answer context outside request).1 ≠ .signature (.ok sig)) :
    Answered emitted signed backend context outside request := by
  have new : backend.newlySigned context outside request = [] := by
    unfold Backend.newlySigned
    rw [signs]
  constructor
  · rw [new, List.append_nil]
    exact sound
  · exact kept
  · exact fun sig answered => absurd answered (refused sig)
  · rw [new]
    exact fun entry impossible => (by cases impossible)

theorem Backend.Sound.answer (sound : backend.Sound emitted signed) (context : Context ID) (outside : Outside ID Hash)
    (request : Request Message ID Hash) :
    Answered emitted signed backend context outside request := by
  cases request with
  | message key =>
    obtain ⟨after_sound, kept, -⟩ := sound.getMessage key
    exact .unsigned rfl after_sound kept fun sig impossible => (by cases impossible)
  | verify message =>
    obtain ⟨after_sound, kept, -⟩ := sound.verify outside message
    exact .unsigned rfl after_sound kept fun sig impossible => (by cases impossible)
  | messageSignature message => exact (sound.getMessageSignature message _).answered rfl rfl
  | blockSignature blockID =>
    cases made : (newHashMessage context.networkID context.chainID blockID : Option Message) with
    | none =>
      have answers : backend.getBlockSignature context outside blockID = (.error .newHashMessage, backend) := by
        unfold Backend.getBlockSignature
        rw [made]
      refine .unsigned made ?_ ?_ fun sig impossible => ?_
      · rw [Backend.answer, answers]
        exact sound
      · rw [Backend.answer, answers]
        exact .same backend
      · rw [Backend.answer, answers] at impossible
        cases impossible
    | some message => exact (sound.getBlockSignature _ made).answered made rfl

end

end Snowside.Signing
