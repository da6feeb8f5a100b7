import Resumable.Text.Bytes
import Resumable.Text.Printable

/-!
# `Text.Width`: how many columns a text takes

Wide characters take two columns, marks and controls none. Characters that are read as one, such as a
letter with its marks or a joined emoji, take as many columns as the first of them that takes any.
Each table lists the code points at which a property begins and ends.
-/

namespace Resumable.Text

/-- Characters of two columns. -/
def wideEdges : List Nat :=
  [4352, 4448, 8986, 8988, 9001, 9003, 9193, 9197, 9200, 9201, 9203, 9204, 9725, 9727, 9748,
   9750, 9800, 9812, 9855, 9856, 9875, 9876, 9889, 9890, 9898, 9900, 9917, 9919, 9924, 9926,
   9934, 9935, 9940, 9941, 9962, 9963, 9970, 9972, 9973, 9974, 9978, 9979, 9981, 9982, 9989,
   9990, 9994, 9996, 10024, 10025, 10060, 10061, 10062, 10063, 10067, 10070, 10071, 10072, 10133,
   10136, 10160, 10161, 10175, 10176, 11035, 11037, 11088, 11089, 11093, 11094, 11904, 11930,
   11931, 12020, 12032, 12246, 12272, 12351, 12353, 12439, 12441, 12544, 12549, 12592, 12593,
   12687, 12688, 12772, 12783, 12831, 12832, 12872, 12880, 19904, 19968, 42125, 42128, 42183,
   43360, 43389, 44032, 55204, 63744, 64256, 65040, 65050, 65072, 65107, 65108, 65127, 65128,
   65132, 65281, 65377, 65504, 65511, 94176, 94181, 94192, 94194, 94208, 100344, 100352, 101590,
   101632, 101641, 110576, 110580, 110581, 110588, 110589, 110591, 110592, 110883, 110898,
   110899, 110928, 110931, 110933, 110934, 110948, 110952, 110960, 111356, 126980, 126981,
   127183, 127184, 127374, 127375, 127377, 127387, 127488, 127491, 127504, 127548, 127552,
   127561, 127568, 127570, 127584, 127590, 127744, 127777, 127789, 127798, 127799, 127869,
   127870, 127892, 127904, 127947, 127951, 127956, 127968, 127985, 127988, 127989, 127992,
   128063, 128064, 128065, 128066, 128253, 128255, 128318, 128331, 128335, 128336, 128360,
   128378, 128379, 128405, 128407, 128420, 128421, 128507, 128592, 128640, 128710, 128716,
   128717, 128720, 128723, 128725, 128728, 128732, 128736, 128747, 128749, 128756, 128765,
   128992, 129004, 129008, 129009, 129292, 129339, 129340, 129350, 129351, 129536, 129648,
   129661, 129664, 129673, 129680, 129726, 129727, 129734, 129742, 129756, 129760, 129769,
   129776, 129785, 131072, 196606, 196608, 262142]

/-- Controls and combining marks, which take no column. -/
def zeroEdges : List Nat :=
  [0, 32, 127, 160, 173, 174, 768, 880, 1155, 1160, 1807, 1808, 2027, 2036, 3072, 3073, 3076,
   3077, 3315, 3316, 3328, 3330, 4957, 4960, 6155, 6160, 6783, 6784, 6832, 6863, 7019, 7028,
   7616, 7680, 8203, 8208, 8232, 8239, 8298, 8304, 8400, 8433, 11503, 11506, 11744, 11776, 12441,
   12443, 42607, 42611, 42612, 42622, 42654, 42656, 42736, 42738, 43232, 43250, 65056, 65072,
   65279, 65280, 65529, 65532, 65534, 65536, 66045, 66046, 66422, 66427, 69291, 69293, 69446,
   69457, 69506, 69510, 70400, 70402, 70459, 70461, 70502, 70509, 70512, 70517, 92912, 92917,
   118528, 118574, 118576, 118599, 119141, 119146, 119149, 119155, 119163, 119171, 119173,
   119180, 119210, 119214, 119362, 119365, 122880, 122887, 122888, 122905, 122907, 122914,
   122915, 122917, 122918, 122923, 123023, 123024, 123184, 123191, 123566, 123567, 123628,
   123632, 124140, 124144, 125136, 125143]

/-- Marks that belong to the character before them. -/
def joiningEdges : List Nat :=
  [768, 880, 1155, 1162, 1425, 1470, 1471, 1472, 1473, 1475, 1476, 1478, 1479, 1480, 1552, 1563,
   1611, 1632, 1648, 1649, 1750, 1757, 1759, 1765, 1767, 1769, 1770, 1774, 1809, 1810, 1840,
   1867, 1958, 1969, 2027, 2036, 2045, 2046, 2070, 2074, 2075, 2084, 2085, 2088, 2089, 2094,
   2137, 2140, 2200, 2208, 2250, 2274, 2275, 2308, 2362, 2365, 2366, 2384, 2385, 2392, 2402,
   2404, 2433, 2436, 2492, 2493, 2494, 2501, 2503, 2505, 2507, 2510, 2519, 2520, 2530, 2532,
   2558, 2559, 2561, 2564, 2620, 2621, 2622, 2627, 2631, 2633, 2635, 2638, 2641, 2642, 2672,
   2674, 2677, 2678, 2689, 2692, 2748, 2749, 2750, 2758, 2759, 2762, 2763, 2766, 2786, 2788,
   2810, 2816, 2817, 2820, 2876, 2877, 2878, 2885, 2887, 2889, 2891, 2894, 2901, 2904, 2914,
   2916, 2946, 2947, 3006, 3011, 3014, 3017, 3018, 3022, 3031, 3032, 3072, 3077, 3132, 3133,
   3134, 3141, 3142, 3145, 3146, 3150, 3157, 3159, 3170, 3172, 3201, 3204, 3260, 3261, 3262,
   3269, 3270, 3273, 3274, 3278, 3285, 3287, 3298, 3300, 3328, 3332, 3387, 3389, 3390, 3397,
   3398, 3401, 3402, 3406, 3415, 3416, 3426, 3428, 3457, 3460, 3530, 3531, 3535, 3541, 3542,
   3543, 3544, 3552, 3570, 3572, 3633, 3634, 3635, 3643, 3655, 3663, 3761, 3762, 3763, 3773,
   3784, 3790, 3864, 3866, 3893, 3894, 3895, 3896, 3897, 3898, 3902, 3904, 3953, 3973, 3974,
   3976, 3981, 3992, 3993, 4029, 4038, 4039, 4139, 4159, 4182, 4186, 4190, 4193, 4194, 4197,
   4199, 4206, 4209, 4213, 4226, 4238, 4239, 4240, 4250, 4254, 4957, 4960, 5906, 5910, 5938,
   5941, 5970, 5972, 6002, 6004, 6068, 6100, 6109, 6110, 6155, 6158, 6159, 6160, 6277, 6279,
   6313, 6314, 6432, 6444, 6448, 6460, 6679, 6684, 6741, 6751, 6752, 6781, 6783, 6784, 6832,
   6863, 6912, 6917, 6964, 6981, 7019, 7028, 7040, 7043, 7073, 7086, 7142, 7156, 7204, 7224,
   7376, 7379, 7380, 7401, 7405, 7406, 7412, 7413, 7415, 7418, 7616, 7680, 8204, 8205, 8400,
   8433, 11503, 11506, 11647, 11648, 11744, 11776, 12330, 12336, 12441, 12443, 42607, 42611,
   42612, 42622, 42654, 42656, 42736, 42738, 43010, 43011, 43014, 43015, 43019, 43020, 43043,
   43048, 43052, 43053, 43136, 43138, 43188, 43206, 43232, 43250, 43263, 43264, 43302, 43310,
   43335, 43348, 43392, 43396, 43443, 43457, 43493, 43494, 43561, 43575, 43587, 43588, 43596,
   43598, 43643, 43646, 43696, 43697, 43698, 43701, 43703, 43705, 43710, 43712, 43713, 43714,
   43755, 43760, 43765, 43767, 44003, 44011, 44012, 44014, 64286, 64287, 65024, 65040, 65056,
   65072, 65438, 65440, 66045, 66046, 66272, 66273, 66422, 66427, 68097, 68100, 68101, 68103,
   68108, 68112, 68152, 68155, 68159, 68160, 68325, 68327, 68900, 68904, 69291, 69293, 69446,
   69457, 69506, 69510, 69632, 69635, 69688, 69703, 69744, 69745, 69747, 69749, 69759, 69763,
   69808, 69819, 69826, 69827, 69888, 69891, 69927, 69941, 69957, 69959, 70003, 70004, 70016,
   70019, 70067, 70081, 70089, 70093, 70094, 70096, 70188, 70200, 70206, 70207, 70367, 70379,
   70400, 70404, 70459, 70461, 70462, 70469, 70471, 70473, 70475, 70478, 70487, 70488, 70498,
   70500, 70502, 70509, 70512, 70517, 70709, 70727, 70750, 70751, 70832, 70852, 71087, 71094,
   71096, 71105, 71132, 71134, 71216, 71233, 71339, 71352, 71453, 71468, 71724, 71739, 71984,
   71990, 71991, 71993, 71995, 71999, 72000, 72001, 72002, 72004, 72145, 72152, 72154, 72161,
   72164, 72165, 72193, 72203, 72243, 72250, 72251, 72255, 72263, 72264, 72273, 72284, 72330,
   72346, 72751, 72759, 72760, 72768, 72850, 72872, 72873, 72887, 73009, 73015, 73018, 73019,
   73020, 73022, 73023, 73030, 73031, 73032, 73098, 73103, 73104, 73106, 73107, 73112, 73459,
   73463, 92912, 92917, 92976, 92983, 94031, 94032, 94033, 94088, 94095, 94099, 94180, 94181,
   94192, 94194, 113821, 113823, 118528, 118574, 118576, 118599, 119141, 119146, 119149, 119155,
   119163, 119171, 119173, 119180, 119210, 119214, 119362, 119365, 121344, 121399, 121403,
   121453, 121461, 121462, 121476, 121477, 121499, 121504, 121505, 121520, 122880, 122887,
   122888, 122905, 122907, 122914, 122915, 122917, 122918, 122923, 123184, 123191, 123566,
   123567, 123628, 123632, 125136, 125143, 125252, 125259, 127995, 128000, 917536, 917632,
   917760, 918000]

/-- Pictures that can be joined to another picture. -/
def pictureEdges : List Nat :=
  [169, 170, 174, 175, 8252, 8253, 8265, 8266, 8482, 8483, 8505, 8506, 8596, 8602, 8617, 8619,
   8986, 8988, 9000, 9001, 9096, 9097, 9167, 9168, 9193, 9204, 9208, 9211, 9410, 9411, 9642,
   9644, 9654, 9655, 9664, 9665, 9723, 9727, 9728, 9734, 9735, 9747, 9748, 9862, 9872, 9990,
   9992, 10003, 10004, 10005, 10006, 10007, 10013, 10014, 10017, 10018, 10024, 10025, 10035,
   10037, 10052, 10053, 10055, 10056, 10060, 10061, 10062, 10063, 10067, 10070, 10071, 10072,
   10083, 10088, 10133, 10136, 10145, 10146, 10160, 10161, 10175, 10176, 10548, 10550, 11013,
   11016, 11035, 11037, 11088, 11089, 11093, 11094, 12336, 12337, 12349, 12350, 12951, 12952,
   12953, 12954, 126976, 127232, 127245, 127248, 127279, 127280, 127340, 127346, 127358, 127360,
   127374, 127375, 127377, 127387, 127405, 127462, 127489, 127504, 127514, 127515, 127535,
   127536, 127538, 127547, 127548, 127552, 127561, 127995, 128000, 128318, 128326, 128592,
   128640, 128768, 128884, 128896, 128981, 129024, 129036, 129040, 129096, 129104, 129114,
   129120, 129160, 129168, 129198, 129280, 129292, 129339, 129340, 129350, 129351, 129792,
   130048, 131070]

/-- The columns of a single character. -/
def charWidth (c : Char) : Nat :=
  let n := c.toNat
  if pastOddEdge n zeroEdges then 0
  else if n < 0x300 then 1
  else if pastOddEdge n wideEdges then 2
  else 1

/-- How a character takes part in the reading of several as one. -/
inductive JoinClass where
  | other
  /-- Line ends and controls, which stand alone. -/
  | control
  | carriageReturn | lineFeed
  /-- Marks, which belong to what is before them. -/
  | mark
  | joiner | picture | flag
  /-- The letters of a Hangul syllable: leading, vowel, trailing, and the composed ones. -/
  | lead | vowel | trail | openSyllable | closedSyllable
  deriving DecidableEq, Repr

namespace JoinClass

/-- The class of a character. -/
def ofChar (c : Char) : JoinClass :=
  let n := c.toNat
  if n == 13 then .carriageReturn
  else if n == 10 then .lineFeed
  else if n == 0x200D then .joiner
  else if pastOddEdge n joiningEdges then .mark
  else if n < 0x20 || (0x7F ≤ n && n ≤ 0x9F) || n == 0xAD || n == 0x200B || n == 0x200E || n == 0x200F ||
      (0x2028 ≤ n && n ≤ 0x202E) || (0x2060 ≤ n && n ≤ 0x206F) || n == 0xFEFF ||
      (0xFFF0 ≤ n && n ≤ 0xFFFB) then .control
  else if 0x1F1E6 ≤ n && n ≤ 0x1F1FF then .flag
  else if (0x1100 ≤ n && n ≤ 0x115F) || (0xA960 ≤ n && n ≤ 0xA97C) then .lead
  else if (0x1160 ≤ n && n ≤ 0x11A7) || (0xD7B0 ≤ n && n ≤ 0xD7C6) then .vowel
  else if (0x11A8 ≤ n && n ≤ 0x11FF) || (0xD7CB ≤ n && n ≤ 0xD7FB) then .trail
  else if 0xAC00 ≤ n && n ≤ 0xD7A3 then
    if (n - 0xAC00) % 28 == 0 then .openSyllable else .closedSyllable
  else if pastOddEdge n pictureEdges then .picture
  else .other

end JoinClass

/-- What is known of the characters before a place. -/
structure JoinState where
  last : JoinClass := .control
  /-- Whether a picture with marks stands before a joiner. -/
  picture : Bool := false
  /-- Whether an odd number of flag letters stands before. -/
  oddFlags : Bool := false

namespace JoinState

/-- Whether a character is read together with those before it. -/
def joins (s : JoinState) (k : JoinClass) : Bool :=
  match s.last, k with
  | .carriageReturn, .lineFeed => true
  | .control, _ | .carriageReturn, _ | .lineFeed, _ => false
  | _, .control | _, .carriageReturn | _, .lineFeed => false
  | _, .mark | _, .joiner => true
  | .lead, .lead | .lead, .vowel | .lead, .openSyllable | .lead, .closedSyllable => true
  | .vowel, .vowel | .vowel, .trail | .openSyllable, .vowel | .openSyllable, .trail => true
  | .trail, .trail | .closedSyllable, .trail => true
  | .joiner, .picture => s.picture
  | .flag, .flag => s.oddFlags
  | _, _ => false

/-- What is known after a further character. -/
def next (s : JoinState) (k : JoinClass) : JoinState where
  last := k
  picture := k == .picture || (s.picture && (k == .mark || (k == .joiner && s.last != .joiner)))
  oddFlags := k == .flag && !(s.last == .flag && s.oddFlags)

end JoinState

/-- The columns of characters after others, where `width` is that of the group before so far. -/
def columnsFrom (s : JoinState) (width : Nat) : List Char → Nat
  | [] => width
  | c :: rest =>
    let k := JoinClass.ofChar c
    if s.joins k then columnsFrom (s.next k) (if width == 0 then charWidth c else width) rest
    else width + columnsFrom (s.next k) (charWidth c) rest

/-- The columns that a text takes. -/
def columns (s : String) : Nat := columnsFrom {} 0 s.toList

/-- Characters in groups that are read as one each; `group` holds the current one, latest first. -/
def groupsFrom (s : JoinState) (group : List Char) : List Char → List (List Char)
  | [] => if group.isEmpty then [] else [group.reverse]
  | c :: rest =>
    let k := JoinClass.ofChar c
    if s.joins k || group.isEmpty then groupsFrom (s.next k) (c :: group) rest
    else group.reverse :: groupsFrom (s.next k) [c] rest

/-- The groups of characters that fit into a number of columns. -/
def fitting (room : Nat) : List (List Char) → List Char
  | [] => []
  | g :: gs =>
    let width := (g.map charWidth).find? (· > 0) |>.getD 0
    if width > room then [] else g ++ fitting (room - width) gs

/-- A text cut down to a number of columns, of which the last are taken by `tail` when something is cut
off. -/
def truncate (width : Nat) (tail : String) (s : String) : String :=
  if columns s ≤ width then s
  else String.ofList (fitting (width - columns tail) (groupsFrom {} [] s.toList)) ++ tail

end Resumable.Text

namespace Resumable.Bytes

/-- The columns that a byte string takes; bytes that are no part of a character take one each. -/
def columns (bs : Bytes) : Nat := Text.columnsFrom {} 0 (bs.scalars.map (·.1))

/-- A byte string with blanks after it, up to a number of columns. -/
def padColumns (width : Nat) (bs : Bytes) : Bytes :=
  bs ++ List.replicate (width - bs.columns) 0x20

end Resumable.Bytes
