namespace Rollout.Word

-- A signed number of 64 bits lies from `-half` to below `half`.
def half : Nat := 0x8000000000000000

-- A signed number of 128 bits lies from `-wideHalf` to below `wideHalf`.
def wideHalf : Nat := 0x80000000000000000000000000000000

-- How many values a number of 128 bits can take.
def wideSize : Nat := 0x100000000000000000000000000000000

end Rollout.Word
