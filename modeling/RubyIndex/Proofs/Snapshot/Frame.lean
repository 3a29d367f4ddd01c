import RubyIndex.Snapshot.Frame

/-!
# Stored content is read back

* `Frame.openBlocks_block`, reading one block and going on unless it is the last one;
* `Frame.openBlocks_storeBlocks`, reading all blocks of some content;
* `Frame.content_store`, reading a frame;
* `Compression.lossless_stored`, storing is a compression to rely on.
-/

namespace RubyIndex
namespace Frame

theorem splitBytes?_of_length {n : Nat} {first : List UInt8} (rest : List UInt8)
    (h : first.length = n) : splitBytes? n (first ++ rest) = some (first, rest) := by
  subst h
  exact splitBytes?_append first rest

theorem take_of_length {n : Nat} (first rest : List UInt8) (h : first.length = n) :
    take n (first ++ rest) = .ok (first, rest) := by
  simp [take, splitBytes?_of_length rest h]

/-! ## Blocks -/

theorem length_blockHead (last : Bool) (size : Nat) : (blockHead last size).length = 3 :=
  length_littleEndian _ _

/-- The size of a block and whether it is the last one fit the three bytes of its head. -/
theorem ofLittleEndian_blockHead (last : Bool) {size : Nat} (h : size ≤ maxBlock) :
    ofLittleEndian (blockHead last size) = 8 * size + if last then 1 else 0 := by
  refine ofLittleEndian_littleEndian ?_
  have hbound : byteBound 3 = 0x1000000 := rfl
  unfold maxBlock at h
  rw [hbound]
  split <;> omega

/-- A block is taken off the front, and reading goes on behind it unless it is the last one. -/
theorem openBlocks_block (last : Bool) {block : List UInt8} (h : block.length ≤ maxBlock)
    (rest : List UInt8) :
    openBlocks (blockHead last block.length ++ (block ++ rest)) =
      if last then .ok block else (openBlocks rest).map (block ++ ·) := by
  -- the head says that the block is stored, how long it is, and whether it is the last one
  have hinfo := ofLittleEndian_blockHead last h
  have hkind : ofLittleEndian (blockHead last block.length) / 2 % 4 = 0 := by
    rw [hinfo]
    split <;> omega
  have hsize : ofLittleEndian (blockHead last block.length) / 8 = block.length := by
    rw [hinfo]
    split <;> omega
  have hlast : ofLittleEndian (blockHead last block.length) % 2 = 1 ↔ last := by
    rw [hinfo]
    cases last with
    | false =>
        have heven : (8 * block.length + 0) % 2 ≠ 1 := by omega
        exact iff_of_false heven Bool.false_ne_true
    | true =>
        have hodd : (8 * block.length + 1) % 2 = 1 := by omega
        exact iff_of_true hodd rfl
  have hhead := splitBytes?_of_length (block ++ rest) (length_blockHead last block.length)
  have hblock := splitBytes?_of_length rest hsize.symm
  rw [openBlocks]
  split
  · simp_all
  · rename_i head rest' hsplit
    rw [hhead] at hsplit
    cases hsplit
    rw [if_neg (by simp [hkind])]
    split
    · simp_all
    · rename_i block' rest' hsplit
      rw [hblock] at hsplit
      cases hsplit
      simp only [hlast]

theorem openBlocks_storeBlocks (content : List UInt8) :
    openBlocks (storeBlocks content) = .ok content := by
  fun_induction storeBlocks content with
  | case1 content h => simpa using openBlocks_block true h []
  | case2 content h ih =>
      -- a full block, and the induction for what is left
      have hlength : (content.take maxBlock).length = maxBlock := by
        rw [List.length_take]
        omega
      have hblock := openBlocks_block false (Nat.le_of_eq hlength)
        (storeBlocks (content.drop maxBlock))
      rw [hlength, ih] at hblock
      rw [List.append_assoc, hblock]
      exact congrArg Except.ok (List.take_append_drop maxBlock content)

/-! ## Frames -/

theorem agrees_append (expected rest : List UInt8) : agrees expected (expected ++ rest) = true := by
  induction expected with
  | nil => rfl
  | cons e expected ih => simp [agrees, ih]

theorem content_store (bytes : List UInt8) : content (store bytes) = .ok bytes := by
  let sized := sizeField bytes ++ storeBlocks bytes
  have hagrees : agrees magic (store bytes) = true := agrees_append magic _
  have hmagic : take 4 (store bytes) = .ok (magic, descriptor :: sized) :=
    take_of_length magic _ rfl
  have hdescriptor : take 1 (descriptor :: sized) = .ok ([descriptor], sized) :=
    take_of_length [descriptor] _ rfl
  have hsize : take 8 sized = .ok (sizeField bytes, storeBlocks bytes) :=
    take_of_length (sizeField bytes) _ (length_littleEndian _ _)
  simp [content, hagrees, hmagic, hdescriptor, hsize, openBlocks_storeBlocks, bind, Except.bind]

end Frame

theorem Compression.lossless_stored : stored.Lossless := by
  intro content
  show (Frame.content (Frame.store content)).mapError Frame.Error.message = .ok content
  rw [Frame.content_store]
  rfl

end RubyIndex
