import NullPath.Crypto.Primitives

/-!
# An instance of the primitives

The assumptions on the primitives are consistent: with a hash that counts
32-byte numbers, a cipher that leaves the plaintext as it is and a tag that
names the key, all calls succeed, and encryption and decryption undo each
other. Being computable, the instance also serves to run the code on examples.
-/

namespace NullPath

/-- Keys are numbers: hashing adds one to the number behind the domain prefix,
the MAC is the key, and the tag is its second half. -/
def counterPrimitives : Primitives where
  sha256 message := ⟨beBytes 32 (ofBeBytes (message.drop 29) + 1), length_beBytes _ _⟩
  hmacSha256 key _ :=
    some ⟨beBytes 8 (ofBeBytes key) ++ List.replicate 24 0, by simp⟩
  encryptInPlaceDetached key _ _ plaintext :=
    some (plaintext, ⟨key.toList.drop 16, by simp⟩)
  decryptInPlaceDetached key _ _ ciphertext tag :=
    if tag.toList = key.toList.drop 16 then some ciphertext else none

theorem counter_encryptTotal : counterPrimitives.EncryptTotal := fun _ _ _ _ => rfl

theorem counter_decryptUndoes : counterPrimitives.DecryptUndoes := by
  intro key nonce aad plaintext ciphertext tag h
  obtain ⟨rfl, rfl⟩ := Prod.mk.inj (Option.some.inj h)
  exact if_pos rfl

theorem counter_encryptUndoes : counterPrimitives.EncryptUndoes := by
  intro key nonce aad ciphertext tag plaintext h
  simp only [counterPrimitives, Option.ite_none_right_eq_some, Option.some.injEq] at h
  obtain ⟨htag, rfl⟩ := h
  exact congrArg some (Prod.ext rfl (List.Vector.toList_injective htag.symm))

theorem counter_encryptTotalUpTo (n : ℕ) : counterPrimitives.EncryptTotalUpTo n :=
  fun aad _ => counter_encryptTotal.encryptsWith aad

theorem counter_hmacTotal : counterPrimitives.HmacTotal := fun _ _ => rfl

end NullPath
