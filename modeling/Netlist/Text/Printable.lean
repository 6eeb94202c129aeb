import Netlist.Text.Table

/-!
# Printable characters

A character is printable when its general category is a letter, a mark, a
number, a punctuation or a symbol.  Of the spaces only the ASCII one is.
-/

namespace Netlist.Text

/-- The code points of category L, M, N, P or S. -/
def printableRanges : Ranges :=
  .read "21-7E A1-C E-377 A-F 84-A C E-A1 3-52F 31-56 9-8A D-F 91-C7 D0-EA F-F4 606-1B D-DC E-70D
    10-4A D-B1 C0-FA D-82D 30-E 40-5B E 60-A 70-8F 97-E1 3-983 5-C F-90 3-A8 A-B0 2 6-9 C-C4 7-8 B-E
    D7 C-D F-E3 6-FE A01-3 5-A F-10 3-28 A-30 2-3 5-6 8-9 C E-42 7-8 B-D 51 9-C E 66-76 81-3 5-D
    F-91 3-A8 A-B0 2-3 5-9 C-C5 7-9 B-D D0 E0-3 6-F1 9-F B01-3 5-C F-10 3-28 A-30 2-3 5-9 C-44 7-8
    B-D 55-7 C-D F-63 6-77 82-3 5-A E-90 2-5 9-A C E-F A3-4 8-A E-B9 E-C2 6-8 A-D D0 7 E6-FA C00-C
    E-10 2-28 A-39 C-44 6-8 A-D 55-6 8-A C-D 60-3 6-F 77-8C E-90 2-A8 A-B3 5-9 C-C4 6-8 A-D D5-6 C-E
    E0-3 6-F F1-3 D00-C E-10 2-44 6-8 A-F 54-63 6-7F 81-3 5-96 A-B1 3-B D C0-6 A F-D4 6 8-F E6-F
    F2-4 E01-3A F-5B 81-2 4 6-A C-A3 5 7-BD C0-4 6 8-E D0-9 C-F F00-47 9-6C 71-97 9-BC E-CC E-DA
    1000-C5 7 D D0-248 A-D 50-6 8 A-D 60-88 A-D 90-B0 2-5 8-E C0 2-5 8-D6 8-310 2-5 8-5A D-7C 80-99
    A0-F5 8-D 400-67F 81-9C A0-F8 700-15 F-36 40-53 60-C E-70 2-3 80-DD E0-9 F0-9 800-D F-19 20-78
    80-AA B0-F5 900-1E 20-B 30-B 40 4-6D 70-4 80-AB B0-C9 D0-A E-A1B E-5E 60-7C F-89 90-9 A0-D B0-DD
    E0-B B00-4C E-F3 C-C37 B-49 D-8A 90-BA D-C7 D0-FA D00-F15 8-D 20-45 8-D 50-7 9 B D F-7D 80-B4
    6-C4 6-D3 6-B D-EF F2-4 6-E 2010-27 30-5E 70-1 4-8E 90-C A0-C1 D0-F0 100-8B 90-429 40-A 60-B73
    6-CF3 9-D25 7 D 30-67 F-70 F-96 A0-6 8-E B0-6 8-E C0-6 8-E D0-6 8-E E0-E5D 80-99 B-F3 F00-D5
    F0-F 3001-3F 41-96 9-FF 105-2F 31-8E 90-E5 F-21E 20-A48C 90-C6 D0-62B 40-F7 700-DC F1-82C 30-9
    40-77 80-C5 E-D9 E0-953 F-7C 80-CD F-D9 E-FE A00-36 40-D 50-9 C-C2 DB-F6 B01-6 9-E 11-6 20-6 8-E
    30-6B 70-ED F0-9 C00-D7A3 B0-C6 B-FB F900-A6D 70-D9 B00-6 13-7 D-36 8-C E 40-1 3-4 6-DCF F0-E19
    20-52 4-66 8-B 70-4 6-FC F01-BE C2-7 A-F D2-7 A-C E0-6 8-E FC-D 10000-B D-26 8-3A C-D F-4D 50-D
    80-FA 100-2 7-33 7-8E 90-C A0 D0-FD 280-9C A0-D0 E0-FB 300-23 D-4A 50-7A 80-9D F-C3 8-D5 400-9D
    A0-9 B0-D3 8-FB 500-27 30-63 F-7A C-8A C-92 4-5 7-A1 3-B1 3-9 B-C C0-F3 600-736 40-55 60-7 80-5
    7-B0 2-A 800-5 8 A-35 7-8 C F-55 7-9E A7-F E0-F2 4-5 B-91B F-39 F-59 80-B7 C-CF D2-A03 5-6 C-13
    5-7 9-35 8-A F-48 50-8 60-9F C0-E6 B-F6 B00-35 9-55 8-72 8-91 9-C A9-F C00-48 80-B2 C0-F2 A-D27
    30-9 40-65 9-85 E-F E60-7E 80-A9 B-D B0-1 C2-7 D0-8 FA-F27 30-59 70-89 B0-CB E0-F6 1000-4D 52-75
    F-BC E-C2 D0-E8 F0-9 100-34 6-47 50-76 80-DF E1-F4 200-11 3-41 80-6 8 A-D F-9D F-A9 B0-EA F0-9
    300-3 5-C F-10 3-28 A-30 2-3 5-9 B-44 7-8 B-D 50 7 D-63 6-C 70-4 80-9 B E 90-B5 7-C0 2 5 7-A
    C-D5 7-8 E1-2 400-5B D-61 80-C7 D0-9 580-B5 8-DD 600-44 50-9 60-C 80-B9 C0-9 D0-E3 700-1A D-2B
    30-46 800-3B A0-F2 F-906 9 C-13 5-6 8-35 7-8 B-46 50-9 A0-7 A-D7 A-E4 A00-47 50-A2 B0-F8 B00-9
    60-7 C0-E1 F0-9 C00-8 A-36 8-45 50-6C 70-8F 92-A7 9-B6 D00-6 8-9 B-36 A C-D F-47 50-9 60-5 7-8
    A-8E 90-1 3-8 A0-9 B0-DB E0-9 EE0-F8 F00-10 2-3A E-5A B0 C0-F1 F-2399 400-6E 70-4 80-543 F90-F2
    3000-42F 40-55 60-43FA 400-646 6100-39 800-A38 40-5E 60-9 E-BE C0-9 D0-ED F0-5 B00-45 50-9 B-61
    3-77 D-8F D40-79 E40-9A A0-B8 B-D3 F00-4A F-87 F-9F E0-4 F0-6 7000-8CD5 FF-D1E 80-F2 AFF0-3 5-B
    D-E B000-122 32 50-2 5 64-7 70-2FB C00-6A 70-C 80-8 90-9 C-F CC00-FC D00-EB3 A-D0 E0-F0 F00-2D
    30-46 50-C3 D000-F5 100-26 9-72 B-EA 200-45 C0-D3 E0-F3 300-56 60-78 400-54 6-9C E-F A2 5-6 9-C
    E-B9 B D-C3 5-505 7-A D-14 6-C E-39 B-E 40-4 6 A-50 2-6A5 8-7CB E-A8B 9B-F A1-F F00-1E 25-A
    E000-6 8-18 B-21 3-4 6-A 30-6D 8F 100-2C 30-D 40-9 E-F 290-AE C0-F9 F 4D0-F9 5D0-FA F 6C0-DE
    E0-F5 E-F 7E0-6 8-B D-E F0-E 800-C4 7-D6 900-4B 50-9 E-F C71-B4 D01-3D E00-3 5-1F 21-2 4 7 9-32
    4-7 9 B 42 7 9 B D-F 51-2 4 7 9 B D F 61-2 4 7-A C-72 4-7 9-C E 80-9 B-9B A1-3 5-9 B-BB F0-1
    F000-2B 30-93 A0-E B1-F C1-F D1-F5 100-AD E6-202 10-3B 40-8 50-1 60-5 300-6D8 C-EC F0-C 700-D9
    E0-B F0 800-B 10-47 50-9 60-87 90-AD B0-B C0-1 D0-8 900-A57 60-D 70-C 80-A E-C6 8 D-DC F-EA F-F8
    B00-92 4-FA 20000-A6DF 700-B81D 20-CEAD B0-EBE0 F0-E5D F800-A1D 30000-134A 50-3479 E0100-EF"

/-- Whether a character is shown as it is. -/
def isPrintable (c : Char) : Bool :=
  if c.toNat < 0x7F then 0x20 ≤ c.toNat else printableRanges.holds c

end Netlist.Text
