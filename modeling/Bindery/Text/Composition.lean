/-!
# Composition

A letter and a mark behind it can have one code point together. A text in composed form never holds
such a pair.
-/

namespace Bindery.Text

/-- The marks that make a pair, each with the letters before it, in the code points of Unicode 14.
-/
def composingPairs : List (Nat × List Nat) :=
  [ (0x300, [0x61, 0x65, 0x69, 0x6e, 0x6f, 0x75, 0x77, 0x79, 0xe2, 0xea, 0xf4, 0xfc, 0x103, 0x113,
    0x14d, 0x1a1, 0x1b0, 0x3b1, 0x3b5, 0x3b7, 0x3b9, 0x3bf, 0x3c5, 0x3c9, 0x3ca, 0x3cb, 0x435,
    0x438, 0x1f00, 0x1f01, 0x1f10, 0x1f11, 0x1f20, 0x1f21, 0x1f30, 0x1f31, 0x1f40, 0x1f41, 0x1f50,
    0x1f51, 0x1f60, 0x1f61]), (0x301, [0x61, 0x63, 0x65, 0x67, 0x69, 0x6b, 0x6c, 0x6d, 0x6e, 0x6f,
    0x70, 0x72, 0x73, 0x75, 0x77, 0x79, 0x7a, 0xe2, 0xe5, 0xe6, 0xe7, 0xea, 0xef, 0xf4, 0xf5, 0xf8,
    0xfc, 0x103, 0x113, 0x14d, 0x169, 0x1a1, 0x1b0, 0x3b1, 0x3b5, 0x3b7, 0x3b9, 0x3bf, 0x3c5, 0x3c9,
    0x3ca, 0x3cb, 0x433, 0x43a, 0x1f00, 0x1f01, 0x1f10, 0x1f11, 0x1f20, 0x1f21, 0x1f30, 0x1f31,
    0x1f40, 0x1f41, 0x1f50, 0x1f51, 0x1f60, 0x1f61]), (0x302, [0x61, 0x63, 0x65, 0x67, 0x68, 0x69,
    0x6a, 0x6f, 0x73, 0x75, 0x77, 0x79, 0x7a, 0x1ea1, 0x1eb9, 0x1ecd]), (0x303, [0x61, 0x65, 0x69,
    0x6e, 0x6f, 0x75, 0x76, 0x79, 0xe2, 0xea, 0xf4, 0x103, 0x1a1, 0x1b0]), (0x304, [0x61, 0x65,
    0x67, 0x69, 0x6f, 0x75, 0x79, 0xe4, 0xe6, 0xf5, 0xf6, 0xfc, 0x1eb, 0x227, 0x22f, 0x3b1, 0x3b9,
    0x3c5, 0x438, 0x443, 0x1e37, 0x1e5b]), (0x306, [0x61, 0x65, 0x67, 0x69, 0x6f, 0x75, 0x229,
    0x3b1, 0x3b9, 0x3c5, 0x430, 0x435, 0x436, 0x438, 0x443, 0x1ea1]), (0x307, [0x61, 0x62, 0x63,
    0x64, 0x65, 0x66, 0x67, 0x68, 0x6d, 0x6e, 0x6f, 0x70, 0x72, 0x73, 0x74, 0x77, 0x78, 0x79, 0x7a,
    0x15b, 0x161, 0x1e63]), (0x308, [0x61, 0x65, 0x68, 0x69, 0x6f, 0x74, 0x75, 0x77, 0x78, 0x79,
    0xf5, 0x16b, 0x3b9, 0x3c5, 0x430, 0x435, 0x436, 0x437, 0x438, 0x43e, 0x443, 0x447, 0x44b, 0x44d,
    0x456, 0x4d9, 0x4e9]), (0x309, [0x61, 0x65, 0x69, 0x6f, 0x75, 0x79, 0xe2, 0xea, 0xf4, 0x103,
    0x1a1, 0x1b0]), (0x30a, [0x61, 0x75, 0x77, 0x79]), (0x30b, [0x6f, 0x75, 0x443]), (0x30c, [0x61,
    0x63, 0x64, 0x65, 0x67, 0x68, 0x69, 0x6a, 0x6b, 0x6c, 0x6e, 0x6f, 0x72, 0x73, 0x74, 0x75, 0x7a,
    0xfc, 0x292]), (0x30f, [0x61, 0x65, 0x69, 0x6f, 0x72, 0x75, 0x475]), (0x311, [0x61, 0x65, 0x69,
    0x6f, 0x72, 0x75]), (0x313, [0x3b1, 0x3b5, 0x3b7, 0x3b9, 0x3bf, 0x3c1, 0x3c5, 0x3c9]), (0x314,
    [0x3b1, 0x3b5, 0x3b7, 0x3b9, 0x3bf, 0x3c1, 0x3c5, 0x3c9]), (0x31b, [0x6f, 0x75]), (0x323, [0x61,
    0x62, 0x64, 0x65, 0x68, 0x69, 0x6b, 0x6c, 0x6d, 0x6e, 0x6f, 0x72, 0x73, 0x74, 0x75, 0x76, 0x77,
    0x79, 0x7a, 0x1a1, 0x1b0]), (0x324, [0x75]), (0x325, [0x61]), (0x326, [0x73, 0x74]), (0x327,
    [0x63, 0x64, 0x65, 0x67, 0x68, 0x6b, 0x6c, 0x6e, 0x72, 0x73, 0x74]), (0x328, [0x61, 0x65, 0x69,
    0x6f, 0x75]), (0x32d, [0x64, 0x65, 0x6c, 0x6e, 0x74, 0x75]), (0x32e, [0x68]), (0x330, [0x65,
    0x69, 0x75]), (0x331, [0x62, 0x64, 0x68, 0x6b, 0x6c, 0x6e, 0x72, 0x74, 0x7a]), (0x342, [0x3b1,
    0x3b7, 0x3b9, 0x3c5, 0x3c9, 0x3ca, 0x3cb, 0x1f00, 0x1f01, 0x1f20, 0x1f21, 0x1f30, 0x1f31,
    0x1f50, 0x1f51, 0x1f60, 0x1f61]), (0x653, [0x627]), (0x654, [0x627, 0x648, 0x64a, 0x6c1, 0x6d2,
    0x6d5]), (0x655, [0x627]), (0x93c, [0x928, 0x930, 0x933]), (0x9be, [0x9c7]), (0x9d7, [0x9c7]),
    (0xb3e, [0xb47]), (0xb56, [0xb47]), (0xb57, [0xb47]), (0xbbe, [0xbc6, 0xbc7]), (0xbd7, [0xb92,
    0xbc6]), (0xc56, [0xc46]), (0xcc2, [0xcc6]), (0xcd5, [0xcbf, 0xcc6, 0xcca]), (0xcd6, [0xcc6]),
    (0xd3e, [0xd46, 0xd47]), (0xd57, [0xd46]), (0xdca, [0xdd9, 0xddc]), (0xdcf, [0xdd9]), (0xddf,
    [0xdd9]), (0x102e, [0x1025]), (0x1b35, [0x1b05, 0x1b07, 0x1b09, 0x1b0b, 0x1b0d, 0x1b11, 0x1b3a,
    0x1b3c, 0x1b3e, 0x1b3f, 0x1b42]), (0x3099, [0x3046, 0x304b, 0x304d, 0x304f, 0x3051, 0x3053,
    0x3055, 0x3057, 0x3059, 0x305b, 0x305d, 0x305f, 0x3061, 0x3064, 0x3066, 0x3068, 0x306f, 0x3072,
    0x3075, 0x3078, 0x307b, 0x309d, 0x30a6, 0x30ab, 0x30ad, 0x30af, 0x30b1, 0x30b3, 0x30b5, 0x30b7,
    0x30b9, 0x30bb, 0x30bd, 0x30bf, 0x30c1, 0x30c4, 0x30c6, 0x30c8, 0x30cf, 0x30d2, 0x30d5, 0x30d8,
    0x30db, 0x30ef, 0x30f0, 0x30f1, 0x30f2, 0x30fd]), (0x309a, [0x306f, 0x3072, 0x3075, 0x3078,
    0x307b, 0x30cf, 0x30d2, 0x30d5, 0x30d8, 0x30db]), (0x110ba, [0x11099, 0x1109b, 0x110a5]),
    (0x11127, [0x11131, 0x11132]), (0x1133e, [0x11347]), (0x11357, [0x11347]), (0x114b0, [0x114b9]),
    (0x114ba, [0x114b9]), (0x114bd, [0x114b9]), (0x115af, [0x115b8, 0x115b9]), (0x11930, [0x11935])]

def composes (a b : Char) : Bool :=
  composingPairs.any fun (second, firsts) => second = b.toNat && firsts.contains a.toNat

def isComposed : List Char → Bool
  | a :: b :: rest => !composes a b && isComposed (b :: rest)
  | _ => true

end Bindery.Text
